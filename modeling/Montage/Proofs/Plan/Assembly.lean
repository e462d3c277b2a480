import Montage.Proofs.Plan.Inserts
import Montage.Proofs.Plan.Naming
import Montage.Plan.Assembly

/-!
# Assemblies come out in order

The second stage of the repair. An assembly splits its plan at the task that joins, and everything
that the repair reads of it stands before that task. A plan with overlays has no assembly, and
parts and clips that are joined by turns are left as they are, so that the stage has nothing to do
on a plan it returned.
-/

namespace Montage

namespace Assembly
variable {T : Type}

/-- A task that joins something by name. -/
def joins (t : Task T) : Bool := t.isKind .concat && !t.inputs.isEmpty

/-- The names of fetched clips. -/
def clipsOf (ts : Plan T) : List String :=
  (ts.filter (Task.isKind .fetchVideo)).filterMap Task.output

/-- What `t` joins, if it stands behind `before`. -/
def joined (before : Plan T) (t : Task T) : Assembly T where
  position := before.length
  inputs := t.inputs
  output := t.output
  trims := trimsFrom 0 before
  clips := clipsOf before

/-- The plan `ts` splits at the first task that joins, and makes up the assembly `a`. -/
structure SplitsAt (a : Assembly T) (ts before : Plan T) (t : Task T) (behind : Plan T) :
    Prop where
  split : ts = before ++ t :: behind
  no_overlay : ts.count .overlayVideo = 0
  joins : joins t = true
  first : ∀ s ∈ before, Assembly.joins s = false
  eq : a = joined before t
  clips : a.clips.isEmpty = false
  trims : a.trims.isEmpty = false

theorem SplitsAt.position_eq {a : Assembly T} {ts before behind : Plan T} {t : Task T}
    (h : a.SplitsAt ts before t behind) : a.position = before.length := by
  rw [h.eq]
  rfl

theorem find?_of_splitsAt {a : Assembly T} {ts before behind : Plan T} {t : Task T}
    (h : a.SplitsAt ts before t behind) : find? ts = some a := by
  have hsplit := h.split
  have hfind : ts.findIdx? (fun t => t.isKind .concat && !t.inputs.isEmpty) =
      some before.length := by
    rw [List.findIdx?_eq_some_iff_getElem]
    subst hsplit
    refine ⟨by simp, by simpa [Assembly.joins] using h.joins, ?_⟩
    intro j hj
    rw [List.getElem_append_left hj]
    exact Bool.eq_false_iff.mp (h.first _ (List.getElem_mem hj))
  have hget : ts[before.length]? = some t := by simp [hsplit]
  have htake : ts.take before.length = before := by simp [hsplit]
  have hclips := h.clips
  have htrims := h.trims
  have heq := h.eq
  subst heq
  simp only [joined, clipsOf] at hclips htrims
  simp only [find?, h.no_overlay, hfind, hget, htake, bind, Option.bind]
  simp [hclips, htrims, joined, clipsOf]

theorem exists_splitsAt {a : Assembly T} {ts : Plan T} (h : find? ts = some a) :
    ∃ before t behind, a.SplitsAt ts before t behind := by
  simp only [find?, bind, Option.bind] at h
  split at h
  · exact absurd h nofun
  · rename_i hcount
    have hno : ts.count .overlayVideo = 0 := by
      by_contra hne
      simp [hne] at hcount
    split at h
    · exact absurd h nofun
    · rename_i i hfind
      obtain ⟨hi, hjoins, hfirst⟩ := List.findIdx?_eq_some_iff_getElem.mp hfind
      simp only [List.getElem?_eq_getElem hi] at h
      split_ifs at h with hempty
      simp only [Bool.or_eq_true, not_or, Bool.not_eq_true] at hempty
      have hlength : (ts.take i).length = i := by simp [hi.le]
      obtain rfl := Option.some.inj h
      refine ⟨ts.take i, ts[i], ts.drop (i + 1), by simp, hno, hjoins, ?_, ?_, hempty.1,
        hempty.2⟩
      · intro s hs
        obtain ⟨j, hj, rfl⟩ := List.getElem_of_mem hs
        have hji : j < i := by omega
        rw [List.getElem_take]
        exact Bool.eq_false_iff.mpr (hfirst j hji)
      · simp only [joined, hlength, clipsOf]

theorem find?_of_overlay {ts : Plan T} (h : ts.count .overlayVideo ≠ 0) : find? ts = none := by
  cases hfind : find? ts with
  | none => rfl
  | some a =>
    obtain ⟨_, _, _, hs⟩ := exists_splitsAt hfind
    exact absurd hs.no_overlay h

/-! ## Joining by turns -/

theorem alternate_perm (trims clips : List String) :
    (alternate trims clips).Perm (trims ++ clips) := by
  fun_induction alternate trims clips with
  | case1 clips => rfl
  | case2 trims => rw [List.append_nil]
  | case3 t trims c clips ih => exact ((ih.cons c).trans List.perm_middle.symm).cons t

theorem mem_alternate {name : String} (trims clips : List String) :
    name ∈ alternate trims clips ↔ name ∈ trims ∨ name ∈ clips :=
  (alternate_perm trims clips).mem_iff.trans List.mem_append

theorem alternate_ne_nil {trims clips : List String} (h : clips ≠ []) :
    alternate trims clips ≠ [] := by
  obtain ⟨name, hname⟩ := List.exists_mem_of_ne_nil clips h
  exact List.ne_nil_of_mem ((mem_alternate trims clips).mpr (Or.inr hname))

/-- The assembly with its parts and clips joined by turns. -/
def inOrder (a : Assembly T) : Assembly T :=
  { a with inputs := alternate a.trimNames a.clips }

/-- Only the inputs of the joining task are changed. -/
theorem modify_append_cons (before behind : Plan T) (t : Task T) (f : Task T → Task T) :
    (before ++ t :: behind).modify before.length f = before ++ f t :: behind := by
  rw [List.modify_eq_take_cons_drop (by simp)]
  simp

theorem SplitsAt.interleave {a : Assembly T} {ts before behind : Plan T} {t : Task T}
    (h : a.SplitsAt ts before t behind) :
    a.inOrder.SplitsAt (ts.modify a.position fun t => { t with inputs := a.inOrder.inputs })
      before { t with inputs := a.inOrder.inputs } behind where
  split := by
    rw [h.split, h.position_eq]
    exact modify_append_cons before behind t _
  no_overlay := by
    have hcount := h.no_overlay
    rw [h.split] at hcount ⊢
    rw [h.position_eq, modify_append_cons]
    simpa [Plan.count] using hcount
  joins := by
    have hinputs : a.inOrder.inputs ≠ [] :=
      alternate_ne_nil (by simpa using h.clips)
    have hkind : t.isKind .concat = true := (Bool.and_eq_true_iff.mp h.joins).1
    simpa [Assembly.joins, hinputs] using hkind
  first := h.first
  eq := by
    have heq := h.eq
    subst heq
    rfl
  clips := h.clips
  trims := h.trims

theorem SplitsAt.ordered {a : Assembly T} {ts before behind : Plan T} {t : Task T}
    (h : a.SplitsAt ts before t behind) :
    a.inOrder.SplitsAt (before ++ { t with inputs := a.inOrder.inputs } :: behind) before
      { t with inputs := a.inOrder.inputs } behind := by
  have hsplits := h.interleave
  have hsplit := hsplits.split
  rwa [hsplit] at hsplits

theorem SplitsAt.eraseIdx {a : Assembly T} {ts before behind : Plan T} {t : Task T}
    (h : a.SplitsAt ts before t behind) : ts.eraseIdx a.position = before ++ behind := by
  rw [h.split, h.position_eq,
    List.eraseIdx_append_of_length_le le_rfl]
  simp

variable [TimeScale T]

theorem SplitsAt.canFillGaps_interleave {a : Assembly T} {ts before behind : Plan T} {t : Task T}
    (h : a.SplitsAt ts before t behind) :
    a.inOrder.canFillGaps (ts.modify a.position fun t => { t with inputs := a.inOrder.inputs }) =
      a.canFillGaps ts := by
  have hshared : a.inOrder.isShared
      (ts.modify a.position fun t => { t with inputs := a.inOrder.inputs }) = a.isShared ts := by
    simp only [isShared]
    rw [h.interleave.eraseIdx, h.eraseIdx]
    rfl
  simp only [canFillGaps, hshared]
  rfl

/-! ## Filling gaps -/

theorem mem_rebuild {a : Assembly T} {ts : Plan T} {t : Task T} :
    t ∈ a.rebuild ts → t ∈ ts ∨ t ∈ a.overlays ∨ t = a.bounding := by
  simp only [rebuild, List.mem_append, List.mem_singleton, List.mem_map, List.mem_filter]
  rintro (((⟨m, ⟨hm, -⟩, rfl⟩ | h) | h) | ⟨m, ⟨hm, -⟩, rfl⟩)
  · exact Or.inl (List.mem_of_mem_take (List.fst_mem_of_mem_zipIdx hm))
  · exact Or.inr (Or.inl h)
  · exact Or.inr (Or.inr h)
  · exact Or.inl (List.mem_of_mem_drop (List.fst_mem_of_mem_zipIdx hm))

theorem isKind_of_mem_overlays {a : Assembly T} {t : Task T} (h : t ∈ a.overlays) :
    t.isKind .overlayVideo = true := by
  unfold overlays at h
  split at h
  · exact absurd h (List.not_mem_nil)
  · rename_i first rest heq
    have hall : ∀ s ∈ first :: rest, s.isKind .overlayVideo = true := by
      rw [← heq]
      intro s hs
      obtain ⟨i, hi, rfl⟩ := List.getElem_of_mem hs
      simp [overlay, Task.ofOperation, Task.isKind, Task.kind?, Operation.kind?]
    obtain rfl | hrest := List.mem_cons.mp h
    · exact hall first List.mem_cons_self
    · exact hall t (List.mem_cons_of_mem _ hrest)

theorem overlays_ne_nil {a : Assembly T} {ts : Plan T} (hfill : a.canFillGaps ts = true)
    (hclips : a.clips.isEmpty = false) : a.overlays ≠ [] := by
  have hgaps : a.gaps ≠ [] := by
    intro h
    simp [canFillGaps, h] at hfill
  unfold overlays
  split
  · rename_i heq
    obtain h | h := List.zipWith_eq_nil_iff.mp heq
    · exact absurd h hgaps
    · simp [h] at hclips
  · exact List.cons_ne_nil _ _

theorem mem_fillGaps {a : Assembly T} {ts : Plan T} {t : Task T}
    (h : t ∈ (a.fillGaps ts).plan) : t ∈ ts ∨ t ∈ a.overlays ∨ t = a.bounding :=
  mem_rebuild (List.mem_filter.mp h).1

/-- The name of a clip that was joined and is of no use in `us`. -/
def unused? (a : Assembly T) (us : Plan T) (t : Task T) : Option String := do
  let name ← t.output
  if t.isKind .fetchVideo && a.inputs.contains name &&
      !(a.clips.take a.overlays.length).contains name &&
      !(us.flatMap Task.referencedNames).contains name then
    some name
  else none

/-- The task does not fetch a clip that is of no use in the rebuilt plan. -/
def useful (a : Assembly T) (ts : Plan T) (t : Task T) : Bool := (a.unused? (a.rebuild ts) t).isNone

theorem fillGaps_plan (a : Assembly T) (ts : Plan T) :
    (a.fillGaps ts).plan = (a.rebuild ts).filter (a.useful ts) := rfl

theorem useful_of_not_fetch {a : Assembly T} {ts : Plan T} {t : Task T}
    (h : t.isKind .fetchVideo = false) : a.useful ts t = true := by
  cases houtput : t.output <;> simp [useful, unused?, houtput, h]

theorem useful_of_overlay {a : Assembly T} {ts : Plan T} {t : Task T}
    (h : t.isKind .overlayVideo = true) : a.useful ts t = true :=
  useful_of_not_fetch (by simp [Task.isKind, Task.isKind_iff.mp h])

theorem useful_bounding {a : Assembly T} {ts : Plan T} : a.useful ts a.bounding = true :=
  useful_of_not_fetch rfl

theorem overlay_mem_fillGaps {a : Assembly T} (ts : Plan T) {t : Task T} (h : t ∈ a.overlays) :
    t ∈ (a.fillGaps ts).plan :=
  List.mem_filter.mpr ⟨by simp [rebuild, h], useful_of_overlay (isKind_of_mem_overlays h)⟩

theorem bounding_mem_fillGaps (a : Assembly T) (ts : Plan T) :
    a.bounding ∈ (a.fillGaps ts).plan :=
  List.mem_filter.mpr ⟨by simp [rebuild], useful_bounding⟩

theorem count_fillGaps_ne_zero {a : Assembly T} {ts : Plan T} (hfill : a.canFillGaps ts = true)
    (hclips : a.clips.isEmpty = false) : (a.fillGaps ts).plan.count .overlayVideo ≠ 0 := by
  obtain ⟨t, ht⟩ := List.exists_mem_of_ne_nil _ (overlays_ne_nil hfill hclips)
  have hpos : 0 < (a.fillGaps ts).plan.countP (Task.isKind .overlayVideo) :=
    List.countP_pos_iff.mpr ⟨t, overlay_mem_fillGaps ts ht, isKind_of_mem_overlays ht⟩
  exact hpos.ne'

end Assembly

namespace Plan
variable {T : Type} [TimeScale T]

/-- The assembly of the plan, if it has one, stays as it is: it joins something else as well, or its
parts and clips are joined by turns and its gaps cannot be filled. -/
def Assembled (ts : Plan T) : Prop :=
  ∀ a, Assembly.find? ts = some a → a.foreign?.isSome = true ∨
    a.canFillGaps ts = false ∧ Assembly.alternate a.trimNames a.clips = a.inputs

theorem assembled_of_overlay {ts : Plan T} (h : ts.count .overlayVideo ≠ 0) : Assembled ts := by
  intro a ha
  rw [Assembly.find?_of_overlay h] at ha
  exact absurd ha nofun

theorem repairAssembly_of_assembled {ts : Plan T} (h : Assembled ts) :
    repairAssembly ts = .clean ts := by
  unfold repairAssembly
  split
  · rfl
  · rename_i a ha
    obtain hforeign | ⟨hfill, hinputs⟩ := h a ha
    · rw [if_pos hforeign]
    · simp [hfill, Assembly.interleave, hinputs]

/-- A repair that reports nothing found nothing to repair. -/
theorem assembled_of_corrections_eq_nil {ts : Plan T} (h : (repairAssembly ts).corrections = []) :
    Assembled ts := by
  intro a ha
  by_cases hforeign : a.foreign?.isSome = true
  · exact Or.inl hforeign
  · right
    simp only [repairAssembly, ha, if_neg hforeign] at h
    split_ifs at h with hfill
    · exact absurd h (List.cons_ne_nil _ _)
    · refine ⟨Bool.eq_false_iff.mpr hfill, ?_⟩
      by_contra hinputs
      simp [Assembly.interleave, hinputs] at h

/-- How the second stage of the repair leaves a plan: as it is, with the gaps of its assembly
filled, or with parts and clips joined by turns. -/
inductive Mended (ts : Plan T) : Repaired T (Plan T) → Prop
  | assembled (h : Assembled ts) : Mended ts (.clean ts)
  | filled {a : Assembly T} {before behind : Plan T} {t : Task T}
      (hs : a.SplitsAt ts before t behind) (hforeign : a.foreign?.isSome = false)
      (hfill : a.canFillGaps ts = true) : Mended ts (a.fillGaps ts)
  | ordered {a : Assembly T} {before behind : Plan T} {t : Task T}
      (hs : a.SplitsAt ts before t behind) (hfill : a.canFillGaps ts = false)
      (hinputs : a.inOrder.inputs ≠ a.inputs) :
      Mended ts ⟨before ++ { t with inputs := a.inOrder.inputs } :: behind,
        [.reorderedConcat a.inOrder.inputs]⟩

theorem mended_repairAssembly (ts : Plan T) : Mended ts (repairAssembly ts) := by
  unfold repairAssembly
  split
  · next hnone => exact .assembled fun a ha => absurd (hnone.symm.trans ha) nofun
  · next a ha =>
    obtain ⟨before, t, behind, hs⟩ := Assembly.exists_splitsAt ha
    have hone {b : Assembly T} (hb : Assembly.find? ts = some b) : a = b :=
      Option.some.inj (ha.symm.trans hb)
    split_ifs with hforeign hfill
    · exact .assembled fun b hb => Or.inl (hone hb ▸ hforeign)
    · exact .filled hs (Bool.eq_false_iff.mpr hforeign) hfill
    · have hfill := Bool.eq_false_iff.mpr hfill
      unfold Assembly.interleave
      dsimp only
      split_ifs with hinputs
      · refine .assembled fun b hb => ?_
        obtain rfl := hone hb
        exact Or.inr ⟨hfill, hinputs⟩
      · have hsplit := hs.interleave.split
        simp only [Assembly.inOrder] at hsplit
        rw [hsplit]
        exact .ordered hs hfill hinputs

theorem assembled_repairAssembly (ts : Plan T) : Assembled (repairAssembly ts).plan := by
  have hmended := mended_repairAssembly ts
  generalize repairAssembly ts = mended at hmended ⊢
  cases hmended with
  | assembled h => exact h
  | filled hs _ hfill => exact assembled_of_overlay (Assembly.count_fillGaps_ne_zero hfill hs.clips)
  | @ordered a _ _ _ hs hfill =>
    have hnofill := hs.canFillGaps_interleave.trans hfill
    rw [hs.interleave.split] at hnofill
    intro b hb
    have hfind := Assembly.find?_of_splitsAt hs.ordered
    obtain rfl : a.inOrder = b := Option.some.inj (hfind.symm.trans hb)
    exact Or.inr ⟨hnofill, rfl⟩

end Plan

end Montage
