import Montage.Proofs.Plan.Windows
import Montage.Proofs.Slot.Rules

/-!
# Slots become insertions

A plan without insertions is given a fetch and an overlay for each slot. Main statements: slots that
were planned under the rules come out of the repair as they went in, each as one overlay behind the
fetch of its clip, so that nothing but names is corrected; and whatever the slots are, a plan that
was repaired with them is left alone when it is repaired with them again.

Planning and repair round the ends of windows in their own ways. They agree in that an end that was
fitted need not be moved, also where the least duration is above the greatest.
-/

namespace Montage
open TimeScale

/-! ## Fitted ends -/

namespace InsertRules
variable (r : InsertRules Rat)

/-- At most `n` slots with fitted ends. -/
structure Fits (n : Nat) (slots : List (Slot Rat)) : Prop where
  number : slots.length ≤ n
  fitted : ∀ s ∈ slots, ∃ stop, s.stop = r.fitEnd s.start stop

variable {r} {n : Nat} {slots : List (Slot Rat)}

theorem Fits.nil (n : Nat) : r.Fits n [] := ⟨Nat.zero_le n, nofun⟩

theorem Fits.cons {s : Slot Rat} {stop : Rat} (hs : s.stop = r.fitEnd s.start stop)
    (h : r.Fits n slots) : r.Fits (n + 1) (s :: slots) where
  number := Nat.succ_le_succ h.number
  fitted := List.forall_mem_cons.mpr ⟨⟨stop, hs⟩, h.fitted⟩

theorem Fits.mono {m : Nat} (hmn : m ≤ n) (h : r.Fits m slots) : r.Fits n slots :=
  ⟨h.number.trans hmn, h.fitted⟩

theorem Fits.map_describe (t : Transcript Rat) (h : r.Fits n slots) :
    r.Fits n (slots.map (InsertRules.describe t)) where
  number := by rw [List.length_map]; exact h.number
  fitted := by
    rw [List.forall_mem_map]
    intro s hs
    rw [describe_start, describe_stop]
    exact h.fitted s hs

theorem fits_sections (boundaries : List Rat) (length latest : Rat) (n i : Nat)
    (last? : Option Rat) : r.Fits n (r.sections boundaries length latest n i last?) := by
  induction n generalizing i last? with
  | zero => exact Fits.nil 0
  | succ n ih =>
    simp only [sections]
    split_ifs
    · exact (ih (i + 1) last?).mono (Nat.le_succ n)
    · exact Fits.cons rfl (ih (i + 1) _)

theorem fits_place (latest : Rat) (n : Nat) (last? : Option Rat) (ps : List (Proposal Rat)) :
    r.Fits n (r.place latest n last? ps) := by
  induction ps generalizing n last? with
  | nil => exact Fits.nil n
  | cons p ps ih =>
    cases n with
    | zero => exact Fits.nil 0
    | succ n =>
      rcases (windowFor_spec (r := r) latest last? p).2.2 with ⟨stop, hstop⟩
      simp only [place]
      split_ifs
      · exact ih (n + 1) last?
      · exact Fits.cons hstop (ih n _)

variable (r)

theorem fits_slots (t : Transcript Rat) (duration : Rat) :
    r.Fits r.maxInserts (r.slots t duration) := by
  apply Fits.map_describe
  unfold slotsAt
  split_ifs
  · exact Fits.nil _
  · exact fits_sections _ _ _ _ _ _

theorem fits_rankedSlots (proposed : Except Failure (List (Proposal Rat))) (t : Transcript Rat)
    (duration : Rat) : r.Fits r.maxInserts (r.rankedSlots proposed t duration) := by
  rcases rankedSlots_cases r duration proposed t with heq | ⟨ps, heq, -⟩
  · rw [heq]
    exact r.fits_slots t duration
  · rw [heq]
    exact fits_place _ _ _ _

end InsertRules

namespace Plan

/-! ## Pairs for slots -/

section
variable {T : Type}

theorem nameFrom_append (used : List String) (n i : Nat) (ts : Plan T) {us : Plan T}
    (h : Named us) : nameFrom used n i (ts ++ us) =
      ⟨(nameFrom used n i ts).plan ++ us, (nameFrom used n i ts).corrections⟩ := by
  induction ts generalizing used n i with
  | nil => exact nameFrom_of_named used n i h
  | cons t rest ih =>
    rw [List.cons_append]
    simp only [nameFrom, ih]
    split_ifs <;> rfl

/-- Directly before each overlay stands the fetch of its clip. -/
def Paired (ts : Plan T) : Prop :=
  ∀ before u behind p, ts = before ++ u :: behind → u.op = .overlayVideo p →
    ∃ f, before.getLast? = some f ∧ f.isKind .fetchVideo = true ∧ f.output = some p.clip

theorem paired_nil : Paired ([] : Plan T) := by
  intro before u behind p h
  exact absurd h.symm (List.append_ne_nil_of_right_ne_nil _ (List.cons_ne_nil _ _))

/-- What stands before the first task changes nothing. -/
theorem getLast?_cons_of_some {t f : Task T} {ts : Plan T} (h : ts.getLast? = some f) :
    (t :: ts).getLast? = some f := by
  cases ts with
  | nil => exact absurd h nofun
  | cons u rest => rw [List.getLast?_cons_cons, h]

theorem Paired.cons {t : Task T} {ts : Plan T} (h : Paired ts)
    (ht : t.isKind .overlayVideo = false) : Paired (t :: ts) := by
  intro before u behind p hsplit hop
  cases before with
  | nil =>
    obtain rfl : t = u := (List.cons.inj hsplit).1
    rw [← isSome_insert?, insert?_eq_some.mpr hop] at ht
    exact absurd ht nofun
  | cons v before =>
    rcases h before u behind p (List.cons.inj hsplit).2 hop with ⟨f, hlast, hf⟩
    exact ⟨f, getLast?_cons_of_some hlast, hf⟩

theorem Paired.cons_cons {f t : Task T} {ts : Plan T} {p : VideoOverlay T} (h : Paired ts)
    (hfetch : f.isKind .fetchVideo = true) (houtput : f.output = some p.clip)
    (hop : t.op = .overlayVideo p) : Paired (f :: t :: ts) := by
  intro before u behind q hsplit hop'
  cases before with
  | nil =>
    obtain rfl : f = u := (List.cons.inj hsplit).1
    simp [Task.isKind, Task.kind?, hop', Operation.kind?] at hfetch
  | cons v before =>
    obtain ⟨rfl, hrest⟩ := List.cons.inj hsplit
    cases before with
    | nil =>
      obtain rfl : t = u := (List.cons.inj hrest).1
      obtain rfl : p = q := by simpa using hop.symm.trans hop'
      exact ⟨f, rfl, hfetch, houtput⟩
    | cons w before =>
      rcases h before u behind q (List.cons.inj hrest).2 hop' with ⟨g, hlast, hg⟩
      exact ⟨g, getLast?_cons_of_some (getLast?_cons_of_some hlast), hg⟩

theorem Paired.append {ts us : Plan T} (h : Paired us) (hts : ts.count .overlayVideo = 0) :
    Paired (ts ++ us) := by
  induction ts with
  | nil => exact h
  | cons t rest ih =>
    rw [← inserts_eq_nil, inserts_cons, List.append_eq_nil_iff] at hts
    apply (ih (inserts_eq_nil.mp hts.2)).cons
    rw [← isSome_insert?]
    cases hinsert : insert? t with
    | none => rfl
    | some p =>
      rw [hinsert] at hts
      exact absurd hts.1 (List.cons_ne_nil _ _)

variable [TimeScale T]

theorem named_pairsFor (used : List String) (n : Nat) (slots : List (Slot T)) :
    Named (pairsFor used n slots) := by
  induction slots generalizing used n with
  | nil => exact List.forall_mem_nil _
  | cons s rest ih => exact named_cons.mpr ⟨fun _ => rfl, named_cons.mpr ⟨nofun, ih _ _⟩⟩

theorem paired_pairsFor (used : List String) (n : Nat) (slots : List (Slot T)) :
    Paired (pairsFor used n slots) := by
  induction slots generalizing used n with
  | nil => exact paired_nil
  | cons s rest ih => exact (ih _ _).cons_cons rfl rfl rfl

/-- The windows of the overlays are those of the slots. -/
theorem inserts_pairsFor (used : List String) (n : Nat) (slots : List (Slot T)) :
    (inserts (pairsFor used n slots)).map (fun p => (p.start, p.stop)) =
      slots.map fun s => (s.start, some s.stop) := by
  induction slots generalizing used n with
  | nil => rfl
  | cons s rest ih => exact congrArg _ (ih _ _)

theorem count_pairsFor (used : List String) (n : Nat) (slots : List (Slot T)) :
    (pairsFor used n slots).count .overlayVideo = slots.length := by
  rw [← length_inserts, ← List.length_map, inserts_pairsFor, List.length_map]

end

/-! ## Planned slots -/

variable (r : InsertRules Rat)

theorem settled_of_settles {start stop : Rat} {clip : String} (h : r.Settles start stop) :
    Settled r (.ofOperation (.overlayVideo ⟨start, some stop, clip⟩)) := by
  intro p hop
  obtain rfl : _ = p := by simpa [Task.ofOperation] using hop
  exact congrArg some (InsertRules.settledEnd_eq_of_settles r clip h).symm

theorem settled_pairsFor {used : List String} {n : Nat} {slots : List (Slot Rat)}
    (h : ∀ s ∈ slots, ∃ stop, s.stop = r.fitEnd s.start stop) :
    ∀ t ∈ pairsFor used n slots, Settled r t := by
  induction slots generalizing used n with
  | nil => exact List.forall_mem_nil _
  | cons s rest ih =>
    rcases List.forall_mem_cons.mp h with ⟨⟨stop, hstop⟩, hrest⟩
    refine List.forall_mem_cons.mpr ⟨nofun, List.forall_mem_cons.mpr ⟨?_, ih hrest⟩⟩
    exact settled_of_settles r (hstop ▸ (r.chooses_fitEnd s.start stop).settles)

/-- The plan has no assembly, its ends are settled and its overlays are few enough: what is left to
do is naming, and the pairs have names. -/
theorem repair_withSlots {ts : Plan Rat} {slots : List (Slot Rat)}
    (hfits : r.Fits r.maxInserts slots) (hne : slots ≠ []) (h : ts.count .overlayVideo = 0) :
    ∃ used, (ts.withSlots slots).repair r =
      ⟨(nameFrom used 0 0 ts).plan ++ pairsFor ts.declaredNames 0 slots,
        (nameFrom used 0 0 ts).corrections⟩ := by
  refine ⟨(ts.withSlots slots).declaredNames, ?_⟩
  generalize hnamed : nameFrom (ts.withSlots slots).declaredNames 0 0 ts = named
  have hcount : named.plan.count .overlayVideo = 0 := by rw [← hnamed, count_nameFrom, h]
  have hname : nameFetches (ts.withSlots slots) =
      ⟨named.plan ++ pairsFor ts.declaredNames 0 slots, named.corrections⟩ := by
    rw [nameFetches]
    nth_rewrite 2 [withSlots]
    rw [nameFrom_append _ _ _ _ (named_pairsFor _ _ _), hnamed]
  have hlength : (named.plan ++ pairsFor ts.declaredNames 0 slots).count .overlayVideo =
      slots.length := by
    have hsplit : (named.plan ++ pairsFor ts.declaredNames 0 slots).count .overlayVideo =
        named.plan.count .overlayVideo + (pairsFor ts.declaredNames 0 slots).count .overlayVideo :=
      List.countP_append
    rw [hsplit, hcount, count_pairsFor, Nat.zero_add]
  have hassembly : Assembled (named.plan ++ pairsFor ts.declaredNames 0 slots) :=
    assembled_of_overlay (hlength ▸ mt List.length_eq_zero_iff.mp hne)
  have hsettled : ∀ t ∈ named.plan ++ pairsFor ts.declaredNames 0 slots, Settled r t := by
    intro t ht
    rcases List.mem_append.mp ht with ht | ht
    · exact settled_of_no_overlay hcount t ht
    · exact settled_pairsFor r hfits.fitted t ht
  simp only [repair, Repaired.andThen, hname, repairAssembly_of_assembled hassembly,
    Repaired.clean, clampDurations_of_settled hsettled,
    truncateInserts_of_count_le (hlength.trans_le hfits.number), List.append_nil]

theorem wantsSlots_of_no_overlay {T : Type} {ts : Plan T} {slots : List (Slot T)} (hne : slots ≠ [])
    (h : ts.count .overlayVideo = 0) : ts.wantsSlots slots = true := by
  simp [wantsSlots, h, hne]

/-- Planned slots come out as they went in: each is one overlay behind the fetch of its clip, and
nothing is corrected but names. -/
theorem planned_slots_become_inserts (t : Transcript Rat) (duration : Rat)
    (proposed : Except Failure (List (Proposal Rat))) {ts : Plan Rat} {slots : List (Slot Rat)}
    (hplanned : slots = r.slots t duration ∨ slots = r.rankedSlots proposed t duration)
    (hne : slots ≠ []) (h : ts.count .overlayVideo = 0) :
    (inserts (ts.repairWithSlots r slots).plan).map (fun p => (p.start, p.stop)) =
        slots.map (fun s => (s.start, some s.stop)) ∧
      Paired (ts.repairWithSlots r slots).plan ∧
      ∃ given, (ts.repairWithSlots r slots).corrections =
          .synthesizedInserts slots.length :: given ∧
        ∀ c ∈ given, ∃ i name, c = .assignedOutput i name := by
  have hfits : r.Fits r.maxInserts slots := by
    rcases hplanned with rfl | rfl
    · exact r.fits_slots t duration
    · exact r.fits_rankedSlots proposed t duration
  rcases repair_withSlots r hfits hne h with ⟨used, hrepair⟩
  have hcount : (nameFrom used 0 0 ts).plan.count .overlayVideo = 0 := by rw [count_nameFrom, h]
  rw [repairWithSlots, if_pos (wantsSlots_of_no_overlay hne h), hrepair]
  refine ⟨?_, (paired_pairsFor _ _ _).append hcount, _, rfl, corrections_nameFrom _ _ _ _⟩
  rw [inserts_append, inserts_eq_nil.mpr hcount, List.nil_append, inserts_pairsFor]

/-- Rules off the grid that want overlays to be longer than they allow. -/
def invertedRules : InsertRules Rat :=
  { InsertRules.narrowRules with minDuration := 4449 / 1000, maxDuration := 4251 / 1000 }

/-- A plan that fetches a clip without a name and shows a part of the source. -/
def bareFetch : Plan Rat :=
  [⟨.fetchVideo ⟨"city", [], 30, "landscape"⟩, none, []⟩, ⟨.trim ⟨5, none⟩, none, []⟩]

theorem planned_slots_become_inserts_of_invertedRules :
    invertedRules.slots .empty (6037 / 100) ≠ [] ∧ bareFetch.count .overlayVideo = 0 ∧
      (inserts (bareFetch.repairWithSlots invertedRules
          (invertedRules.slots .empty (6037 / 100))).plan).map (fun p => (p.start, p.stop)) =
        [(33 / 2, some (20751 / 1000)), (75 / 2, some (41751 / 1000))] ∧
      Paired (bareFetch.repairWithSlots invertedRules
        (invertedRules.slots .empty (6037 / 100))).plan := by
  have hne : invertedRules.slots .empty (6037 / 100) ≠ [] := by
    have hsome : (invertedRules.slots .empty (6037 / 100)).isEmpty = false := by decide +kernel
    simpa using hsome
  have hcount : bareFetch.count .overlayVideo = 0 := by decide
  have hplanned := planned_slots_become_inserts invertedRules .empty (6037 / 100) (.ok [])
    (Or.inl rfl) hne hcount
  refine ⟨hne, hcount, ?_, hplanned.2.1⟩
  rw [hplanned.1]
  decide +kernel

/-! ## Repairing again -/

variable {r}

/-- With an insertion allowed, a plan with overlays keeps some. -/
theorem count_repair_ne_zero (h : 1 ≤ r.maxInserts) {ts : Plan Rat}
    (hts : ts.count .overlayVideo ≠ 0) : (ts.repair r).plan.count .overlayVideo ≠ 0 := by
  have hnamed : (nameFetches ts).plan.count .overlayVideo ≠ 0 := by
    rwa [nameFetches, count_nameFrom]
  rw [repair_plan, count_truncateInserts, clamped, count_clampDurations,
    repairAssembly_of_assembled (assembled_of_overlay hnamed)]
  simp only [Repaired.clean]
  omega

theorem repair_plan_repair (h : 1 ≤ r.maxInserts) (ts : Plan Rat) :
    (ts.repair r).plan.repair r = .clean (ts.repair r).plan := by
  apply repair_of_normal (named_repair ts) _ (settled_repair ts) (count_repair_le ts)
  exact (assembled_clamped ts).truncateInserts (Or.inl (by omega))

/-- The slots of a plan that was repaired with them are not filled again. -/
theorem wantsSlots_repairWithSlots (h : 1 ≤ r.maxInserts) (slots : List (Slot Rat))
    (ts : Plan Rat) : (ts.repairWithSlots r slots).plan.wantsSlots slots = false := by
  by_cases hne : slots = []
  · simp [wantsSlots, hne]
  · have hcount : (ts.repairWithSlots r slots).plan.count .overlayVideo ≠ 0 := by
      by_cases hts : ts.count .overlayVideo = 0
      · rw [repairWithSlots, if_pos (wantsSlots_of_no_overlay hne hts)]
        apply count_repair_ne_zero h
        have hsplit : (ts.withSlots slots).count .overlayVideo = ts.count .overlayVideo +
            (pairsFor ts.declaredNames 0 slots).count .overlayVideo := List.countP_append
        rw [hsplit, count_pairsFor]
        have hpos := List.length_pos_iff.mpr hne
        omega
      · have hwants : ts.wantsSlots slots = false := by simp [wantsSlots, hts]
        rw [repairWithSlots, hwants]
        exact count_repair_ne_zero h hts
    simp [wantsSlots, hcount]

variable (r)

theorem exists_repairWithSlots_plan (slots : List (Slot Rat)) (ts : Plan Rat) :
    ∃ us : Plan Rat, (ts.repairWithSlots r slots).plan = (us.repair r).plan := by
  rw [repairWithSlots]
  split_ifs
  · exact ⟨ts.withSlots slots, rfl⟩
  · exact ⟨ts, rfl⟩

/-- A plan that was repaired with slots, whatever they are, is left as it is when it is repaired
with them again. -/
theorem repairWithSlots_repairWithSlots (h : 1 ≤ r.maxInserts) (slots : List (Slot Rat))
    (ts : Plan Rat) : (ts.repairWithSlots r slots).plan.repairWithSlots r slots =
      .clean (ts.repairWithSlots r slots).plan := by
  rcases exists_repairWithSlots_plan r slots ts with ⟨us, hplan⟩
  rw [repairWithSlots, wantsSlots_repairWithSlots h slots ts, if_neg Bool.false_ne_true, hplan]
  exact repair_plan_repair h us

theorem repairWithSlots_repairWithSlots_of_looseAssembly :
    1 ≤ InsertRules.narrowRules.maxInserts ∧
      (looseAssembly.repairWithSlots .narrowRules
          [.window 10 60, .window 9 3]).plan.repairWithSlots .narrowRules
          [.window 10 60, .window 9 3] =
        .clean (looseAssembly.repairWithSlots .narrowRules [.window 10 60, .window 9 3]).plan := by
  have h : 1 ≤ InsertRules.narrowRules.maxInserts := by decide
  exact ⟨h, repairWithSlots_repairWithSlots .narrowRules h [.window 10 60, .window 9 3]
    looseAssembly⟩

end Plan

end Montage
