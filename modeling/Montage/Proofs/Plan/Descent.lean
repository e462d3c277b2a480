import Montage.Proofs.Plan.Derives
import Montage.Proofs.Plan.References

/-!
# Where the tasks of a repaired plan come from

Main statement: a repaired plan consists of the tasks of the plan and of those that a rewritten
assembly brings in, in this order and each at most once. A task is changed in its name, its end and
its inputs alone, and the tasks that are missing are parts and joining of the rewritten assembly,
overlays beyond the greatest number, and fetches to which nothing refers.

Each stage keeps some items of a list in their order and loses the others, and such steps compose.
What a stage says of positions speaks of the plan it is given. Positions are the same up to the
stage that repairs assemblies, and where that one moves tasks, there are no overlays to be counted.
-/

namespace Montage

namespace Plan

/-! ## Durations and number -/

section
variable {T : Type}

/-- A task at its position is an overlay behind `n` others. -/
def Surplus (n : Nat) (ts : Plan T) (m : Task T × Nat) : Prop :=
  m.1.isKind .overlayVideo = true ∧ n ≤ count .overlayVideo (ts.take m.2)

theorem Surplus.mono {n n' : Nat} {ts : Plan T} {m : Task T × Nat} (h : Surplus n ts m)
    (hle : n' ≤ n) : Surplus n' ts m :=
  ⟨h.1, hle.trans h.2⟩

theorem count_append_singleton (k : Kind) (ts : Plan T) (t : Task T) :
    count k (ts ++ [t]) = ts.count k + if t.isKind k then 1 else 0 := by
  simp [count, List.countP_append, List.countP_cons]

/-- The overlays that are removed are those with `n` overlays before them. -/
theorem derives_splitInserts (n : Nat) (before rest : Plan T) :
    Derives (fun m t => t = m.1) (Surplus (before.count .overlayVideo + n) (before ++ rest))
      (rest.zipIdx before.length) (splitInserts n rest).1 := by
  -- Each step moves a task to those before the list, which keeps the plan as a whole.
  fun_induction splitInserts n rest generalizing before with
  | case1 n => exact .nil
  | case2 t rest ht kept removed heq ih =>
    have hrest := ih (before ++ [t])
    rw [heq, count_append_singleton, List.append_assoc, List.length_append] at hrest
    refine .lose ⟨ht, by simp⟩ (hrest.imp (fun _ _ _ _ h => h) fun m _ h => h.mono ?_)
    omega
  | case3 t rest ht n kept removed heq ih =>
    have hrest := ih (before ++ [t])
    rw [heq, count_append_singleton, if_pos ht, List.append_assoc, List.length_append] at hrest
    refine .keep rfl (hrest.imp (fun _ _ _ _ h => h) fun m _ h => h.mono ?_)
    omega
  | case4 n t rest ht kept removed heq ih =>
    have hrest := ih (before ++ [t])
    rw [heq, count_append_singleton, if_neg ht, List.append_assoc, List.length_append] at hrest
    exact .keep rfl hrest

theorem dropInputs_nil (t : Task T) : dropInputs [] t = t := by
  simp [dropInputs]

/-- Nothing is dropped from inputs unless overlays are removed. -/
theorem derives_truncateInserts (n : Nat) (ts : Plan T) :
    Derives (fun m t => ∃ gone, (ts.count .overlayVideo ≤ n → gone = []) ∧ t = dropInputs gone m.1)
      (fun m => Surplus n ts m ∨ Unread (truncateInserts n ts).plan m.1)
      ts.zipIdx (truncateInserts n ts).plan := by
  by_cases h : n < ts.count .overlayVideo
  · have hsplit := derives_splitInserts n [] ts
    have hstay := Derives.filter (fun t =>
      (orphan? (splitInserts n ts).1 (splitInserts n ts).2 t).isNone) (splitInserts n ts).1
    have hdrop := Derives.map (dropInputs (gone n ts)) (staying n ts)
    have hrefers : ∀ v ∈ (truncateInserts n ts).plan, ∃ u ∈ (splitInserts n ts).1,
        v.referencedNames ⊆ u.referencedNames := by
      rw [truncateInserts_plan h, List.forall_mem_map]
      intro u hu
      exact ⟨u, (List.mem_filter.mp hu).1, dropInputs_referencedNames_subset _ u⟩
    rw [truncateInserts_plan h] at hrefers ⊢
    refine (hsplit.trans (hstay.trans hdrop)).imp ?_ ?_
    · rintro m - t - ⟨_, rfl, _, rfl, rfl⟩
      exact ⟨gone n ts, fun hle => absurd hle (Nat.not_le_of_lt h), rfl⟩
    · rintro m - (hsurplus | ⟨_, rfl, horphan | ⟨_, -, hfalse⟩⟩)
      · exact Or.inl (hsurplus.mono (Nat.le_add_left n _))
      · exact Or.inr ((unread_of_orphan? horphan).mono hrefers)
      · exact hfalse.elim
  · have hall := Derives.map Prod.fst ts.zipIdx
    rw [List.zipIdx_map_fst] at hall
    rw [truncateInserts_of_count_le (Nat.le_of_not_lt h)]
    refine hall.imp (fun m _ t _ ht => ?_) fun _ _ => False.elim
    exact ⟨[], fun _ => rfl, by rw [dropInputs_nil, ht]⟩

variable [TimeScale T]

/-- What the last two stages may change: the end of an overlay, and names that are no inputs
then. -/
structure Adjusted (r : InsertRules T) (s t : Task T) : Prop where
  output : t.output = s.output
  inputs : t.inputs.Sublist s.inputs
  op : t.op = s.op ∨ ∃ p, s.op = .overlayVideo p ∧
    t.op = .overlayVideo { p with stop := some (r.settledEnd p) }

theorem adjusted_clampTask (r : InsertRules T) (gone : List String) (s : Task T) :
    Adjusted r s (dropInputs gone (clampTask r s).plan) where
  output := clampTask_output r s
  inputs := clampTask_inputs r s ▸ List.filter_sublist
  op := by
    simp only [dropInputs]
    obtain h | ⟨p, hop, h⟩ := clampTask_cases r s
    · exact Or.inl (congrArg Task.op h)
    · exact Or.inr ⟨p, hop, congrArg Task.op h⟩

theorem Adjusted.referencedNames_subset {r : InsertRules T} {s t : Task T} (h : Adjusted r s t) :
    t.referencedNames ⊆ s.referencedNames := by
  apply Task.referencedNames_subset h.inputs.subset
  obtain hop | ⟨p, hop, hop'⟩ := h.op
  · simp only [Task.shown?, hop]
  · simp only [Task.shown?, hop, hop']

/-- The last two stages, which lose overlays that are too many, and fetches. -/
theorem derives_adjusted (r : InsertRules T) (ts : Plan T) :
    Derives (fun m t => Adjusted r m.1 t ∧
        (ts.count .overlayVideo ≤ r.maxInserts → t.inputs = m.1.inputs))
      (fun m => Surplus r.maxInserts ts m ∨
        Unread (truncateInserts r.maxInserts (clampDurations r ts).plan).plan m.1)
      ts.zipIdx (truncateInserts r.maxInserts (clampDurations r ts).plan).plan := by
  have hmap (us : Plan T) : (clampDurations r us).plan = us.map fun t => (clampTask r t).plan := by
    simp only [clampDurations, List.map_map]
    rfl
  have hzip : (clampDurations r ts).plan.zipIdx =
      ts.zipIdx.map (Prod.map (fun t => (clampTask r t).plan) id) := by
    rw [hmap, List.zipIdx_map]
  have hlast := derives_truncateInserts r.maxInserts (clampDurations r ts).plan
  rw [hzip] at hlast
  refine (Derives.map_left_iff.mp hlast).imp ?_ ?_
  · rintro m - t - ⟨gone, hgone, rfl⟩
    refine ⟨adjusted_clampTask r gone m.1, fun hle => ?_⟩
    rw [hgone (by rwa [count_clampDurations]), dropInputs_nil]
    exact clampTask_inputs r m.1
  · rintro m - (⟨hkind, hbehind⟩ | ⟨hfetch, name, houtput, hunread⟩)
    · left
      rw [hmap, Prod.map_snd, ← List.map_take, ← hmap, count_clampDurations] at hbehind
      exact ⟨(Task.isKind_congr (clampTask_kind? r m.1) _).symm.trans hkind, hbehind⟩
    · right
      exact ⟨(Task.isFetch_congr (clampTask_kind? r m.1)).symm.trans hfetch, name,
        (clampTask_output r m.1).symm.trans houtput, hunread⟩

end

/-! ## Names -/

section
variable {T : Type}

/-- A task at position `i` is left as it is, or is a nameless fetch with the name that the
corrections assign it. -/
def Renamed (cs : List (Correction T)) (i : Nat) (s u : Task T) : Prop :=
  u = s ∨ s.isFetch = true ∧ s.output = none ∧
    ∃ name, .assignedOutput i name ∈ cs ∧ u = { s with output := some name }

theorem Renamed.mono {cs cs' : List (Correction T)} {i : Nat} {s u : Task T}
    (h : Renamed cs i s u) (hsub : cs ⊆ cs') : Renamed cs' i s u := by
  obtain rfl | ⟨hfetch, hnone, name, hmem, hu⟩ := h
  · exact Or.inl rfl
  · exact Or.inr ⟨hfetch, hnone, name, hsub hmem, hu⟩

theorem Renamed.op {cs : List (Correction T)} {i : Nat} {s u : Task T} (h : Renamed cs i s u) :
    u.op = s.op := by
  obtain rfl | ⟨-, -, name, -, rfl⟩ := h <;> rfl

theorem Renamed.inputs {cs : List (Correction T)} {i : Nat} {s u : Task T}
    (h : Renamed cs i s u) : u.inputs = s.inputs := by
  obtain rfl | ⟨-, -, name, -, rfl⟩ := h <;> rfl

theorem Renamed.isKind {cs : List (Correction T)} {i : Nat} {s u : Task T}
    (h : Renamed cs i s u) (k : Kind) : u.isKind k = s.isKind k :=
  Task.isKind_congr (congrArg Operation.kind? h.op) k

theorem Renamed.joins {cs : List (Correction T)} {i : Nat} {s u : Task T}
    (h : Renamed cs i s u) : Assembly.joins u = Assembly.joins s := by
  simp only [Assembly.joins, h.isKind, h.inputs]

/-- A task that is no fetch is left as it is. -/
theorem Renamed.eq {cs : List (Correction T)} {i : Nat} {s u : Task T} (h : Renamed cs i s u)
    (hfetch : u.isFetch = false) : u = s := by
  obtain rfl | ⟨hs, -, name, -, rfl⟩ := h
  · rfl
  · exact absurd (hs.symm.trans hfetch) (by simp)

theorem forall₂_nameFrom (used : List String) (n i : Nat) (ts : Plan T) :
    List.Forall₂ (fun m q => m.2 = q.2 ∧ Renamed (nameFrom used n i ts).corrections m.2 m.1 q.1)
      (ts.zipIdx i) ((nameFrom used n i ts).plan.zipIdx i) := by
  induction ts generalizing used n i with
  | nil => exact .nil
  | cons t rest ih =>
    simp only [nameFrom]
    split_ifs with hname
    · obtain ⟨hfetch, hnone⟩ := Bool.and_eq_true_iff.mp hname
      refine .cons ⟨rfl, Or.inr ⟨hfetch, by simpa using hnone, _, List.mem_cons_self, rfl⟩⟩ ?_
      exact (ih _ _ _).imp fun m q h => ⟨h.1, h.2.mono (List.subset_cons_self _ _)⟩
    · exact .cons ⟨rfl, Or.inl rfl⟩ (ih _ _ _)

theorem take_nameFrom (used : List String) (n i k : Nat) (ts : Plan T) :
    (nameFrom used n i ts).plan.take k = (nameFrom used n i (ts.take k)).plan := by
  induction ts generalizing used n i k with
  | nil => simp [nameFrom, Repaired.clean]
  | cons t rest ih =>
    cases k with
    | zero => rfl
    | succ k =>
      simp only [nameFrom, List.take_succ_cons]
      split_ifs
      · rw [List.take_succ_cons, ih]
      · rw [List.take_succ_cons, ih]

end

end Plan

/-! ## Assemblies -/

/-- Where a task comes from: it was given, at a position of the plan, or made by a rewriting. -/
inductive Origin (T : Type) where
  | given (t : Task T) (position : Nat)
  | made (t : Task T)

namespace Origin
variable {T : Type}

def given? : Origin T → Option (Task T × Nat)
  | given t i => some (t, i)
  | made _ => none

def made? : Origin T → Option (Task T)
  | given _ _ => none
  | made t => some t

/-- Tasks at their positions, all of them given. -/
def givens (ms : List (Task T × Nat)) : List (Origin T) := ms.map fun m => given m.1 m.2

theorem givens_append (ms ns : List (Task T × Nat)) : givens (ms ++ ns) = givens ms ++ givens ns :=
  List.map_append

@[simp] theorem filterMap_given?_givens (ms : List (Task T × Nat)) :
    (givens ms).filterMap given? = ms := by
  simp [givens, List.filterMap_map, Function.comp_def, given?]

@[simp] theorem filterMap_made?_givens (ms : List (Task T × Nat)) :
    (givens ms).filterMap made? = [] := by
  simp [givens, List.filterMap_map, Function.comp_def, made?]

@[simp] theorem filterMap_given?_made (ts : Plan T) :
    (ts.map made).filterMap given? = [] := by
  simp [List.filterMap_map, Function.comp_def, given?]

@[simp] theorem filterMap_made?_made (ts : Plan T) : (ts.map made).filterMap made? = ts := by
  simp [List.filterMap_map, Function.comp_def, made?]

end Origin

namespace Assembly.SplitsAt
variable {T : Type} {a : Assembly T} {ts before behind : Plan T} {t : Task T}

theorem zipIdx_eq (hs : a.SplitsAt ts before t behind) :
    ts.zipIdx = before.zipIdx ++ (t, a.position) :: behind.zipIdx (a.position + 1) := by
  rw [hs.split, hs.position_eq, List.zipIdx_append, List.zipIdx_cons, Nat.zero_add]

theorem not_overlay (hs : a.SplitsAt ts before t behind) :
    ∀ m ∈ ts.zipIdx, m.1.isKind .overlayVideo = false := by
  intro m hm
  have hnone := List.countP_eq_zero.mp hs.no_overlay m.1 (List.fst_mem_of_mem_zipIdx hm)
  exact Bool.eq_false_iff.mpr hnone

end Assembly.SplitsAt

namespace Plan
open Origin
variable {T : Type} [TimeScale T]

/-- The assembly of a plan is rewritten. -/
def Rewrites (ts : Plan T) (a : Assembly T) : Prop :=
  Assembly.find? ts = some a ∧ a.foreign?.isSome = false ∧ a.canFillGaps ts = true

/-- As what a task stands in the plan `us` that the repair of the assembly makes of `ts`. -/
inductive Stands (ts us : Plan T) : Origin T → Task T × Nat → Prop
  | given {t : Task T} {i j : Nat} (hcount : t.isKind .overlayVideo = true →
      count .overlayVideo (us.take j) = count .overlayVideo (ts.take i)) :
      Stands ts us (.given t i) (t, j)
  | joined {a : Assembly T} {t : Task T} {j : Nat} (ha : Assembly.find? ts = some a)
      (hjoins : Assembly.joins t = true) (hnone : us.count .overlayVideo = 0) :
      Stands ts us (.given t a.position) ({ t with inputs := a.inOrder.inputs }, j)
  | made {t : Task T} {j : Nat} (hfetch : t.isFetch = false) : Stands ts us (.made t) (t, j)

/-- The tasks that the repair of the assembly of `ts` leaves out of `us`. -/
inductive Omitted (ts us : Plan T) : Origin T → Prop
  | part {a : Assembly T} {s : SourceTrim T} (ha : ts.Rewrites a) (hmem : s ∈ a.trims) :
      Omitted ts us (.given s.task s.position)
  | joining {a : Assembly T} {t : Task T} (ha : ts.Rewrites a)
      (hjoins : Assembly.joins t = true) : Omitted ts us (.given t a.position)
  | fetch {t : Task T} {i : Nat} (hunread : Unread us t) : Omitted ts us (.given t i)

/-- Tasks that are no overlays stay as they are, wherever they come to stand. -/
theorem derives_givens {ts us : Plan T} {ms : List (Task T × Nat)}
    (h : ∀ m ∈ ms, m.1.isKind .overlayVideo = false) :
    Derives (Stands ts us) (Omitted ts us) (givens ms) ms := by
  apply Derives.of_map
  intro m hm
  exact .given fun hkind => absurd hkind (Bool.eq_false_iff.mp (h m hm))

omit [TimeScale T] in
theorem derives_without (a : Assembly T) (first : Nat) (ts : Plan T) :
    Derives (fun o t => ∃ i, o = .given t i) (fun o => ∃ t, ∃ s ∈ a.trims,
      (t, s.position) ∈ ts.zipIdx first ∧ o = .given t s.position)
      (givens (ts.zipIdx first)) (a.without first ts) := by
  apply Derives.map_left_iff.mpr
  refine ((Derives.filter _ _).trans (Derives.map Prod.fst _)).imp ?_ ?_
  · rintro ⟨t, i⟩ - u - ⟨_, rfl, rfl⟩
    exact ⟨i, rfl⟩
  · rintro ⟨t, i⟩ hm (hpart | ⟨_, -, hfalse⟩)
    · obtain ⟨s, hs, rfl⟩ : ∃ s ∈ a.trims, s.position = i := by simpa using hpart
      exact ⟨t, s, hs, hm, rfl⟩
    · exact hfalse.elim

theorem derives_fillGaps (a : Assembly T) (ts : Plan T) :
    Derives (fun t u => u = t) (Unread (a.rebuild ts)) (a.rebuild ts) (a.fillGaps ts).plan := by
  rw [Assembly.fillGaps_plan]
  exact (Derives.filter _ _).imp (fun _ _ _ _ h => h) fun _ _ => unread_of_not_useful

/-- The tasks before the joining, those that are made, and the joining with the tasks behind it. -/
def rewritten (a : Assembly T) (before : Plan T) (t : Task T) (behind : Plan T) :
    List (Origin T) :=
  givens before.zipIdx ++ ((a.overlays ++ [a.bounding]).map .made ++
    givens ((t, a.position) :: behind.zipIdx (a.position + 1)))

section
variable {a : Assembly T} {ts us before behind : Plan T} {t : Task T}

theorem filterMap_given?_rewritten (hs : a.SplitsAt ts before t behind) :
    (rewritten a before t behind).filterMap given? = ts.zipIdx := by
  simp only [rewritten, List.filterMap_append, filterMap_given?_givens, filterMap_given?_made,
    List.nil_append, hs.zipIdx_eq]

theorem filterMap_made?_rewritten :
    (rewritten a before t behind).filterMap made? = a.overlays ++ [a.bounding] := by
  simp only [rewritten, List.filterMap_append, filterMap_made?_givens, filterMap_made?_made,
    List.nil_append, List.append_nil]

/-- In the place of the joining stand the tasks that are made. -/
theorem derives_rebuild (hs : a.SplitsAt ts before t behind) (ha : ts.Rewrites a) :
    Derives (fun o u => (∃ i, o = .given u i) ∨ o = .made u ∧ u.isFetch = false) (Omitted ts us)
      (rewritten a before t behind) (a.rebuild ts) := by
  rw [hs.rebuild, List.append_assoc, List.append_assoc, ← List.append_assoc a.overlays]
  apply Derives.append
  · refine (derives_without a 0 before).imp (fun _ _ _ _ h => Or.inl h) ?_
    rintro o - ⟨u, s, hmem, hat, rfl⟩
    rw [hs.eq_task hmem hat]
    exact .part ha hmem
  apply Derives.append
  · apply Derives.of_map
    intro u hu
    refine Or.inr ⟨rfl, ?_⟩
    obtain hoverlay | hbounding := List.mem_append.mp hu
    · exact Task.isFetch_of_isKind (Assembly.isKind_of_mem_overlays hoverlay)
    · rw [List.mem_singleton.mp hbounding]
      rfl
  · refine .lose (.joining ha hs.joins) ?_
    refine (derives_without a (a.position + 1) behind).imp (fun _ _ _ _ h => Or.inl h) ?_
    rintro o - ⟨u, s, hmem, hat, rfl⟩
    exact absurd hat (hs.not_mem_behind hmem)

theorem derives_filled (hs : a.SplitsAt ts before t behind) (ha : ts.Rewrites a) :
    Derives (Stands ts (a.fillGaps ts).plan) (Omitted ts (a.fillGaps ts).plan)
      (rewritten a before t behind) (a.fillGaps ts).plan.zipIdx := by
  have hmade : Derives _ (Omitted ts (a.fillGaps ts).plan) _ _ := derives_rebuild hs ha
  refine (hmade.trans (derives_fillGaps a ts)).zipIdx.imp ?_ ?_
  · rintro o ho ⟨u, j⟩ - ⟨_, ⟨i, rfl⟩ | ⟨rfl, hfetch⟩, rfl⟩
    · have hgiven : (u, i) ∈ ts.zipIdx := by
        rw [← filterMap_given?_rewritten hs]
        exact List.mem_filterMap.mpr ⟨_, ho, rfl⟩
      exact .given fun hkind => absurd hkind (Bool.eq_false_iff.mp (hs.not_overlay (u, i) hgiven))
    · exact .made hfetch
  · rintro o - (homitted | ⟨u, ⟨i, rfl⟩ | ⟨-, hfetch⟩, hunread⟩)
    · exact homitted
    · refine .fetch (hunread.mono fun v hv => ?_)
      exact ⟨v, (List.mem_filter.mp hv).1, List.Subset.refl _⟩
    · exact absurd hunread.1 (Bool.eq_false_iff.mp hfetch)

end

/-- The tasks of a plan, with those that are made for it. -/
theorem exists_origins (ts : Plan T) : ∃ origins : List (Origin T),
    origins.filterMap given? = ts.zipIdx ∧
    (origins.filterMap made? = [] ∨
      ∃ a, ts.Rewrites a ∧ origins.filterMap made? = a.overlays ++ [a.bounding]) ∧
    Derives (Stands ts (repairAssembly ts).plan) (Omitted ts (repairAssembly ts).plan) origins
      (repairAssembly ts).plan.zipIdx := by
  have hmended := mended_repairAssembly ts
  generalize repairAssembly ts = mended at hmended ⊢
  cases hmended with
  | assembled _ =>
    refine ⟨givens ts.zipIdx, by simp, by simp, ?_⟩
    exact Derives.of_map fun m _ => .given fun _ => rfl
  | @ordered a before behind t hs _ _ =>
    have hzip := hs.zipIdx_eq
    have hnone := hs.not_overlay
    refine ⟨givens ts.zipIdx, by simp, by simp, ?_⟩
    rw [hzip] at hnone ⊢
    rw [List.forall_mem_append, List.forall_mem_cons] at hnone
    rw [givens_append, List.zipIdx_append, List.zipIdx_cons, Nat.zero_add, ← hs.position_eq]
    refine (derives_givens hnone.1).append (.keep ?_ (derives_givens hnone.2.2))
    exact .joined (Assembly.find?_of_splitsAt hs) hs.joins hs.ordered.no_overlay
  | @filled a before behind t hs hforeign hfill =>
    have ha : ts.Rewrites a := ⟨Assembly.find?_of_splitsAt hs, hforeign, hfill⟩
    exact ⟨rewritten a before t behind, filterMap_given?_rewritten hs,
      Or.inr ⟨a, ha, filterMap_made?_rewritten⟩, derives_filled hs ha⟩

/-! ## The repair -/

/-- An origin with the name that the first stage gives it. -/
inductive Lifts (cs : List (Correction T)) : Origin T → Origin T → Prop
  | given {s u : Task T} {i : Nat} (h : Renamed cs i s u) : Lifts cs (.given s i) (.given u i)
  | made {v : Task T} : Lifts cs (.made v) (.made v)

omit [TimeScale T] in
theorem exists_lifts {cs : List (Correction T)} {origins : List (Origin T)}
    {ms : List (Task T × Nat)} (h : List.Forall₂ (fun m q => m.2 = q.2 ∧ Renamed cs m.2 m.1 q.1)
      ms (origins.filterMap given?)) : ∃ sources : List (Origin T),
    sources.filterMap given? = ms ∧ sources.filterMap made? = origins.filterMap made? ∧
      List.Forall₂ (Lifts cs) sources origins := by
  induction origins generalizing ms with
  | nil =>
    cases h
    exact ⟨[], rfl, rfl, .nil⟩
  | cons o origins ih =>
    cases o with
    | given u i =>
      cases h with
      | @cons m _ ms _ hm hrest =>
        obtain ⟨sources, hgiven, hmade, hlifts⟩ := ih hrest
        obtain ⟨s, i⟩ := m
        obtain ⟨rfl, hrenamed⟩ := hm
        exact ⟨.given s _ :: sources, congrArg ((s, _) :: ·) hgiven, hmade,
          .cons (.given hrenamed) hlifts⟩
    | made v =>
      obtain ⟨sources, hgiven, hmade, hlifts⟩ := ih h
      exact ⟨.made v :: sources, hgiven, congrArg (v :: ·) hmade, .cons .made hlifts⟩

/-- What a task of a plan at position `i` may become in a repair: a nameless fetch is given a name,
an overlay another end, and inputs are dropped or, where parts are joined, put in order. -/
structure Keeps (r : InsertRules T) (ts : Plan T) (i : Nat) (s t : Task T) : Prop where
  output : t.output = s.output ∨ s.isFetch = true ∧ s.output = none ∧
    ∃ name, t.output = some name ∧ .assignedOutput i name ∈ (ts.repair r).corrections
  op : t.op = s.op ∨ ∃ p, s.op = .overlayVideo p ∧
    t.op = .overlayVideo { p with stop := some (r.settledEnd p) }
  inputs : t.inputs.Sublist s.inputs ∨ ∃ a, Assembly.find? ts.nameFetches.plan = some a ∧
    a.position = i ∧ Assembly.joins s = true ∧ t.inputs = a.inOrder.inputs

/-- What a task of the repaired plan comes from. -/
inductive Becomes (r : InsertRules T) (ts : Plan T) : Origin T → Task T → Prop
  | given {s t : Task T} {i : Nat} (h : Keeps r ts i s t) : Becomes r ts (.given s i) t
  | made {s t : Task T} (h : Adjusted r s t) : Becomes r ts (.made s) t

/-- The tasks that a repaired plan misses. -/
inductive Goes (r : InsertRules T) (ts : Plan T) : Origin T → Prop
  | part {a : Assembly T} {s : SourceTrim T} (ha : ts.nameFetches.plan.Rewrites a)
      (hmem : s ∈ a.trims) : Goes r ts (.given s.task s.position)
  | joining {a : Assembly T} {s : Task T} (ha : ts.nameFetches.plan.Rewrites a)
      (hjoins : Assembly.joins s = true) : Goes r ts (.given s a.position)
  | surplus {s : Task T} {i : Nat} (h : Surplus r.maxInserts ts (s, i)) : Goes r ts (.given s i)
  | unread {s : Task T} {i : Nat} (name : String) (hfetch : s.isFetch = true)
      (hname : s.output = some name ∨
        s.output = none ∧ .assignedOutput i name ∈ (ts.repair r).corrections)
      (hunread : ∀ t ∈ (ts.repair r).plan, name ∉ t.referencedNames) : Goes r ts (.given s i)
  | made {s : Task T} (h : s.isKind .overlayVideo = true) : Goes r ts (.made s)

section
variable {r : InsertRules T} {ts us : Plan T} {cs : List (Correction T)} {s u : Task T} {i : Nat}

theorem Adjusted.keeps {v t : Task T} (h : Adjusted r v t) (hs : Renamed cs i s u)
    (hcs : cs ⊆ (ts.repair r).corrections) (hop : v.op = u.op) (houtput : v.output = u.output)
    (hinputs : v.inputs = u.inputs ∨ ∃ a, Assembly.find? ts.nameFetches.plan = some a ∧
      a.position = i ∧ Assembly.joins u = true ∧ t.inputs = a.inOrder.inputs) :
    Keeps r ts i s t where
  output := by
    rw [h.output, houtput]
    obtain rfl | ⟨hfetch, hnone, name, hmem, rfl⟩ := hs
    · exact Or.inl rfl
    · exact Or.inr ⟨hfetch, hnone, name, rfl, hcs hmem⟩
  op := by
    rw [← hs.op, ← hop]
    exact h.op
  inputs := by
    rw [← hs.inputs, ← hs.joins]
    obtain hsame | ⟨a, ha, hposition, hjoins, horder⟩ := hinputs
    · exact Or.inl (hsame ▸ h.inputs)
    · exact Or.inr ⟨a, ha, hposition, hjoins, horder⟩

theorem Stands.becomes {o o' : Origin T} {m : Task T × Nat} {t : Task T} (hlift : Lifts cs o o')
    (hstands : Stands ts.nameFetches.plan us o' m) (h : Adjusted r m.1 t)
    (hsame : us.count .overlayVideo ≤ r.maxInserts → t.inputs = m.1.inputs)
    (hcs : cs ⊆ (ts.repair r).corrections) : Becomes r ts o t := by
  cases hlift with
  | given hs =>
    cases hstands with
    | given _ => exact .given (h.keeps hs hcs rfl rfl (Or.inl rfl))
    | joined ha hjoins hnone =>
      have hordered := hsame (hnone.le.trans (Nat.zero_le _))
      exact .given (h.keeps hs hcs rfl rfl (Or.inr ⟨_, ha, rfl, hjoins, hordered⟩))
  | made =>
    cases hstands with
    | made _ => exact .made h

theorem Unread.goes (h : Unread (ts.repair r).plan u) (hs : Renamed cs i s u)
    (hcs : cs ⊆ (ts.repair r).corrections) : Goes r ts (.given s i) := by
  obtain ⟨hfetch, name, houtput, hunread⟩ := h
  obtain rfl | ⟨hfetch, hnone, name', hmem, rfl⟩ := hs
  · exact .unread name hfetch (Or.inl houtput) hunread
  · obtain rfl : name' = name := Option.some.inj houtput
    exact .unread name' hfetch (Or.inr ⟨hnone, hcs hmem⟩) hunread

theorem Omitted.goes {o o' : Origin T} (hlift : Lifts cs o o')
    (h : Omitted ts.nameFetches.plan us o') (hcs : cs ⊆ (ts.repair r).corrections)
    (hrefers : ∀ t ∈ (ts.repair r).plan, ∃ u ∈ us, t.referencedNames ⊆ u.referencedNames) :
    Goes r ts o := by
  cases hlift with
  | given hs =>
    cases h with
    | part ha hmem =>
      -- A part is no fetch, so that it was not renamed.
      obtain rfl := hs.eq rfl
      exact .part ha hmem
    | joining ha hjoins => exact .joining ha (hs.joins.symm.trans hjoins)
    | fetch hunread => exact (hunread.mono hrefers).goes hs hcs
  | made => cases h

/-- Up to the stage that repairs assemblies, positions are those of the plan. -/
theorem Stands.goes {o o' : Origin T} {m : Task T × Nat} (hlift : Lifts cs o o')
    (hstands : Stands ts.nameFetches.plan us o' m)
    (h : Surplus r.maxInserts us m ∨ Unread (ts.repair r).plan m.1)
    (hcs : cs ⊆ (ts.repair r).corrections) : Goes r ts o := by
  cases hlift with
  | @given s u i hs =>
    cases hstands with
    | given hcount =>
      obtain ⟨hkind, hbehind⟩ | hunread := h
      · refine .surplus ⟨(hs.isKind _).symm.trans hkind, ?_⟩
        rwa [hcount hkind, nameFetches, take_nameFrom, count_nameFrom] at hbehind
      · exact hunread.goes hs hcs
    | joined _ hjoins _ =>
      -- What joins is neither an overlay nor a fetch and cannot be lost.
      have hconcat := (Bool.and_eq_true_iff.mp hjoins).1
      obtain ⟨hkind, -⟩ | ⟨hfetch, -⟩ := h
      · exact absurd ((Task.isKind_iff.mp hconcat).symm.trans (Task.isKind_iff.mp hkind)) (by simp)
      · exact absurd ((Task.isFetch_of_isKind hconcat).symm.trans hfetch) Bool.false_ne_true
  | made =>
    cases hstands with
    | made hfetch =>
      obtain ⟨hkind, -⟩ | ⟨hfetch', -⟩ := h
      · exact .made hkind
      · exact absurd (hfetch'.symm.trans hfetch) (by simp)

end

/-- Every task of a repaired plan is a task of the plan or one that rewriting its assembly brings
in, each at most once and in order, and what is missing was superfluous. -/
theorem repair_descends (r : InsertRules T) (ts : Plan T) : ∃ origins : List (Origin T),
    origins.filterMap given? = ts.zipIdx ∧
    (origins.filterMap made? = [] ∨ ∃ a, ts.nameFetches.plan.Rewrites a ∧
      origins.filterMap made? = a.overlays ++ [a.bounding]) ∧
    Derives (Becomes r ts) (Goes r ts) origins (ts.repair r).plan := by
  have hnames : List.Forall₂ (fun m q => m.2 = q.2 ∧
      Renamed ts.nameFetches.corrections m.2 m.1 q.1) ts.zipIdx ts.nameFetches.plan.zipIdx :=
    forall₂_nameFrom ts.declaredNames 0 0 ts
  obtain ⟨origins, hgiven, hmade, hstands⟩ := exists_origins ts.nameFetches.plan
  rw [← hgiven] at hnames
  obtain ⟨sources, hsources, hmade', hlifts⟩ := exists_lifts hnames
  refine ⟨sources, hsources, hmade' ▸ hmade, ?_⟩
  have hcs : ts.nameFetches.corrections ⊆ (ts.repair r).corrections := by
    intro c hc
    simp [repair, Repaired.andThen, hc]
  have hfirst : Derives (Lifts ts.nameFetches.corrections) (fun _ => False) sources origins :=
    .of_forall₂ hlifts
  have hlast := derives_adjusted r (repairAssembly ts.nameFetches.plan).plan
  have hrefers : ∀ t ∈ (ts.repair r).plan, ∃ u ∈ (repairAssembly ts.nameFetches.plan).plan,
      t.referencedNames ⊆ u.referencedNames := by
    intro t ht
    obtain ⟨m, hm, hadjusted, -⟩ := hlast.exists_of_mem ht
    exact ⟨m.1, List.fst_mem_of_mem_zipIdx hm, hadjusted.referencedNames_subset⟩
  refine ((hfirst.trans hstands).trans hlast).imp ?_ ?_
  · rintro o - t - ⟨m, ⟨o', hlift, hstands⟩, hadjusted, hsame⟩
    exact hstands.becomes hlift hadjusted hsame hcs
  · rintro o - ((hfalse | ⟨o', hlift, homitted⟩) | ⟨m, ⟨o', hlift, hstands⟩, hgoes⟩)
    · exact hfalse.elim
    · exact homitted.goes hlift hcs hrefers
    · exact hstands.goes hlift hgoes hcs

end Plan

end Montage
