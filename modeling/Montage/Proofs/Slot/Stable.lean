import Montage.Proofs.Slot.Rules

/-!
# Planned windows are left alone

Planning at boundaries and fixing proposals shift and round windows in their own ways. Main
statement: whichever of the two planned the windows, fixing leaves them as they are when they are
proposed again, as many of them and in the same order.

A window that fixing would not move starts on the grid of tenths, has a fitted end and keeps its
distance from the slot before. `Placed` says so of a list, behind the end that both ways of planning
carry along. Durations and distances that are not negative put such a list in order of time.
-/

namespace Montage
open TimeScale

namespace InsertRules
variable (r : InsertRules Rat)

variable {r} in
/-- An end that the rules choose fits. -/
theorem Chooses.fitEnd_eq {start e : Rat} (h : r.Chooses start e) : r.fitEnd start e = e := by
  cases h with
  | offGrid d none =>
    simp only [fitEnd, if_pos none]
    rw [add_sub_cancel_left, clampDuration_clampDuration]
  | onGrid grid low high =>
    simp only [fitEnd, if_neg (not_lt.mpr (low.trans high))]
    rw [grid.nearest_eq, Exact.clamp_of_mem low high]

theorem fitEnd_fitEnd (start stop : Rat) :
    r.fitEnd start (r.fitEnd start stop) = r.fitEnd start stop :=
  (r.chooses_fitEnd start stop).fitEnd_eq

/-- A window that starts and ends where fixing would put it. -/
structure Rests (latest : Rat) (s : Slot Rat) : Prop where
  onGrid : Tenth.OnGrid s.start
  not_early : r.earliestStart ≤ s.start
  fitted : r.fitEnd s.start s.stop = s.stop
  not_late : s.stop ≤ latest

/-- At most `n` slots that fixing would leave where they are, behind a slot that ended at
`last?`. -/
inductive Placed (latest : Rat) : Nat → Option Rat → List (Slot Rat) → Prop
  | nil (n : Nat) (last? : Option Rat) : Placed latest n last? []
  | cons {n : Nat} {last? : Option Rat} {s : Slot Rat} {slots : List (Slot Rat)}
      (rests : r.Rests latest s) (apart : ∀ last ∈ last?, r.nextStart last ≤ s.start)
      (rest : Placed latest n (some s.stop) slots) : Placed latest (n + 1) last? (s :: slots)

variable {r} {latest : Rat}

theorem Placed.mono {m n : Nat} {last? : Option Rat} {slots : List (Slot Rat)} (hmn : m ≤ n)
    (h : r.Placed latest m last? slots) : r.Placed latest n last? slots := by
  induction h generalizing n with
  | nil => exact .nil n _
  | cons rests apart _ ih =>
    cases n with
    | zero => exact absurd hmn (Nat.not_succ_le_zero _)
    | succ n => exact .cons rests apart (ih (Nat.le_of_succ_le_succ hmn))

/-! ## What is planned -/

theorem placed_sections (boundaries : List Rat) (length : Rat) (n i : Nat) (last? : Option Rat) :
    r.Placed latest n last? (r.sections boundaries length latest n i last?) := by
  induction n generalizing i last? with
  | zero => exact .nil 0 last?
  | succ n ih =>
    have hgrid (t : Rat) : Tenth.OnGrid (max (Tenth.nearest t) r.earliestStart) :=
      (Tenth.onGrid_nearest t).max (Tenth.onGrid_above _)
    simp only [sections, Exact.later_eq]
    split_ifs with hlate
    · exact (ih (i + 1) last?).mono (Nat.le_succ n)
    · refine .cons ⟨?_, ?_, r.fitEnd_fitEnd _ _, not_lt.mp hlate⟩ ?_ (ih (i + 1) _)
      · cases last? with
        | none => exact hgrid _
        | some last => exact (hgrid _).max (Tenth.onGrid_above _)
      · cases last? with
        | none => exact le_max_right _ _
        | some last => exact (le_max_right _ _).trans (le_max_left _ _)
      · rintro last rfl
        exact le_max_right _ _

theorem placed_slotsAt (boundaries : List Rat) (duration : Rat) :
    r.Placed (r.latestEnd duration) r.maxInserts none (r.slotsAt boundaries duration) := by
  unfold slotsAt
  split_ifs
  · exact .nil _ _
  · exact placed_sections boundaries _ r.maxInserts 0 none

/-- The start of a window for a proposal, moved behind the slot before or not. -/
theorem windowFor_start (latest : Rat) (last? : Option Rat) (p : Proposal Rat) :
    Tenth.OnGrid (r.windowFor latest last? p).1 ∧
      r.earliestStart ≤ (r.windowFor latest last? p).1 ∧
      ∀ last ∈ last?, r.nextStart last ≤ (r.windowFor latest last? p).1 := by
  have hfirst := earliestStart_le_above (r := r) p.start
  cases last? with
  | none => exact ⟨Tenth.onGrid_above _, hfirst, nofun⟩
  | some last =>
    simp only [windowFor, Option.mem_some_iff, forall_eq']
    split_ifs with hnext
    · exact ⟨Tenth.onGrid_above _, hfirst.trans hnext.le, le_rfl⟩
    · exact ⟨Tenth.onGrid_above _, hfirst, not_lt.mp hnext⟩

theorem windowFor_fitted (last? : Option Rat) (p : Proposal Rat) :
    r.fitEnd (r.windowFor latest last? p).1 (r.windowFor latest last? p).2 =
      (r.windowFor latest last? p).2 := by
  rcases (windowFor_spec (r := r) latest last? p).2.2 with ⟨stop, hstop⟩
  rw [hstop, fitEnd_fitEnd]

theorem placed_place (n : Nat) (last? : Option Rat) (ps : List (Proposal Rat)) :
    r.Placed latest n last? (r.place latest n last? ps) := by
  induction ps generalizing n last? with
  | nil => exact .nil n last?
  | cons p ps ih =>
    cases n with
    | zero => exact .nil 0 last?
    | succ n =>
      simp only [place]
      split_ifs with hlate
      · exact ih (n + 1) last?
      · rcases windowFor_start (r := r) latest last? p with ⟨hgrid, hfirst, hapart⟩
        exact .cons ⟨hgrid, hfirst, windowFor_fitted last? p, not_lt.mp hlate⟩ hapart (ih n _)

/-! ## What is proposed again -/

/-- The proposal has the window of the slot. -/
def Proposes (p : Proposal Rat) (s : Slot Rat) : Prop := p.start = s.start ∧ p.stop = some s.stop

theorem starts_of_proposes {ps : List (Proposal Rat)} {slots : List (Slot Rat)}
    (h : List.Forall₂ Proposes ps slots) : ps.map Proposal.start = slots.map Slot.start := by
  induction h with
  | nil => rfl
  | cons hp _ ih => exact congrArg₂ _ hp.1 ih

theorem windowFor_of_rests {last? : Option Rat} {s : Slot Rat} (h : r.Rests latest s)
    (hapart : ∀ last ∈ last?, r.nextStart last ≤ s.start) {p : Proposal Rat} (hp : Proposes p s) :
    r.windowFor latest last? p = (s.start, s.stop) := by
  have hstart : Tenth.above (later p.start r.earliestStart) = s.start := by
    rw [hp.1, Exact.later_eq, max_eq_left h.not_early, h.onGrid.above_eq]
  have hstop : r.fitEnd s.start (earlier (p.stop.getD (s.start + r.target)) latest) = s.stop := by
    rw [hp.2, Option.getD_some, Exact.earlier_eq, min_eq_left h.not_late, h.fitted]
  cases last? with
  | none => simp only [windowFor, hstart, hstop]
  | some last => simp only [windowFor, hstart, hstop, if_neg (not_lt.mpr (hapart last rfl))]

/-- Slots that are placed already are placed where they are. -/
theorem place_of_placed {n : Nat} {last? : Option Rat} {slots : List (Slot Rat)}
    (h : r.Placed latest n last? slots) {ps : List (Proposal Rat)}
    (hps : List.Forall₂ Proposes ps slots) :
    (r.place latest n last? ps).map (fun s => (s.start, s.stop)) =
      slots.map fun s => (s.start, s.stop) := by
  induction h generalizing ps with
  | nil n last? =>
    cases hps
    rfl
  | cons rests apart _ ih =>
    cases hps with
    | cons hp hps =>
      simp only [place, windowFor_of_rests rests apart hp, if_neg (not_lt.mpr rests.not_late),
        List.map_cons, ih hps]

/-- Durations and distances that are not negative put the slots in order. -/
theorem Placed.pairwise (hmin : 0 ≤ r.minDuration) (h : r.minDuration ≤ r.maxDuration)
    (hgap : 0 ≤ r.minGap) {n : Nat} {last? : Option Rat} {slots : List (Slot Rat)}
    (hslots : r.Placed latest n last? slots) : slots.Pairwise fun s t => s.start ≤ t.start := by
  apply List.isChain_iff_pairwise.mp
  induction hslots with
  | nil => exact .nil
  | @cons n last? s slots rests _ rest ih =>
    refine List.isChain_cons.mpr ⟨fun t ht => ?_, ih⟩
    cases rest with
    | nil => exact absurd ht nofun
    | cons rests' apart' _ =>
      cases Option.some.inj ht
      have hlong := (fitEnd_bounds h s.start s.stop).1
      rw [rests.fitted] at hlong
      have hnext := le_nextStart (r := r) s.stop
      have hstart := apart' s.stop rfl
      have hleeway : leeway < 1 / 20 := by unfold leeway; norm_num
      exact rests.onGrid.le_of_lt rests'.onGrid (by linarith)

/-- Proposals in order of time are placed as they come. -/
theorem fix_of_placed (hmin : 0 ≤ r.minDuration) (h : r.minDuration ≤ r.maxDuration)
    (hgap : 0 ≤ r.minGap) {duration : Rat} {slots : List (Slot Rat)}
    (hslots : r.Placed (r.latestEnd duration) r.maxInserts none slots) {ps : List (Proposal Rat)}
    (hps : List.Forall₂ Proposes ps slots) :
    (r.fix ps duration).map (fun s => (s.start, s.stop)) =
      slots.map fun s => (s.start, s.stop) := by
  have hfilter : ps.filter (fun p => isFinite p.start) = ps :=
    List.filter_eq_self.mpr fun _ _ => rfl
  have hsorted : ps.Pairwise fun a b => ascending a.start b.start = true := by
    have hstarts := List.pairwise_map.mpr (hslots.pairwise hmin h hgap)
    rw [← starts_of_proposes hps] at hstarts
    exact (List.pairwise_map.mp hstarts).imp decide_eq_true
  rw [fix, hfilter, List.mergeSort_of_pairwise hsorted]
  exact place_of_placed hslots hps

/-- Windows that were planned, at boundaries or for proposals, are a fixed point of fixing. -/
theorem fix_planned_windows (hmin : 0 ≤ r.minDuration) (h : r.minDuration ≤ r.maxDuration)
    (hgap : 0 ≤ r.minGap) {duration : Rat} {slots : List (Slot Rat)}
    (hplanned : (∃ boundaries, slots = r.slotsAt boundaries duration) ∨
      ∃ proposals, slots = r.fix proposals duration)
    {again : List (Proposal Rat)} (hagain : List.Forall₂ Proposes again slots) :
    (r.fix again duration).map (fun s => (s.start, s.stop)) =
      slots.map fun s => (s.start, s.stop) := by
  have hplaced : r.Placed (r.latestEnd duration) r.maxInserts none slots := by
    rcases hplanned with ⟨boundaries, rfl⟩ | ⟨proposals, rfl⟩
    · exact placed_slotsAt boundaries duration
    · exact placed_place _ _ _
  exact fix_of_placed hmin h hgap hplaced hagain

/-- The slots as proposals without words. -/
def proposals (slots : List (Slot Rat)) : List (Proposal Rat) :=
  slots.map fun s => ⟨s.start, some s.stop, none, "", "", []⟩

theorem fix_planned_windows_of_narrowRules :
    0 ≤ narrowRules.minDuration ∧ narrowRules.minDuration ≤ narrowRules.maxDuration ∧
      0 ≤ narrowRules.minGap ∧
      (narrowRules.fix (proposals (narrowRules.slotsAt [10, 1837 / 100, 40] (6037 / 100)))
          (6037 / 100)).map (fun s => (s.start, s.stop)) =
        [(92 / 5, 449 / 20), (40, 881 / 20)] := by
  have hmin : 0 ≤ narrowRules.minDuration := by decide +kernel
  have h : narrowRules.minDuration ≤ narrowRules.maxDuration := by decide +kernel
  have hgap : 0 ≤ narrowRules.minGap := by decide +kernel
  refine ⟨hmin, h, hgap, ?_⟩
  rw [fix_planned_windows hmin h hgap (Or.inl ⟨[10, 1837 / 100, 40], rfl⟩)]
  · decide +kernel
  · exact List.forall₂_map_left_iff.mpr (List.forall₂_same.mpr fun _ _ => ⟨rfl, rfl⟩)

end InsertRules

end Montage
