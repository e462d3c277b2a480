import Montage.Proofs.Plan.Inserts
import Montage.Proofs.Slot.Rules

/-!
# On and off the grid

Slots and overlays end on the grid of tenths wherever the rules leave room for that. Main statement:
the three ways of moving a time to the grid keep the order of times and what is on the grid already,
they are ordered as their names say, and the two that have a direction overstep a time by the slack
at most. So a range of ends has room for a tenth exactly if its first end, moved up, does not come
behind its last, moved down, and where it has none, no end that is chosen is on the grid.
-/

namespace Montage
open TimeScale

namespace Tenth

/-- A way of moving times to the grid. -/
structure MovesToGrid (move : Rat → Rat) : Prop where
  onGrid : ∀ t, OnGrid (move t)
  keeps : ∀ t, OnGrid t → move t = t
  mono : Monotone move

theorem movesToGrid_above : MovesToGrid above :=
  ⟨onGrid_above, fun _ => OnGrid.above_eq, above_mono⟩

theorem movesToGrid_below : MovesToGrid below :=
  ⟨onGrid_below, fun _ => OnGrid.below_eq, below_mono⟩

theorem movesToGrid_nearest : MovesToGrid nearest :=
  ⟨onGrid_nearest, fun _ => OnGrid.nearest_eq, nearest_mono⟩

/-- There is room for a tenth between two times. -/
def HasRoom (low high : Rat) : Prop := ∃ t, OnGrid t ∧ low - slack ≤ t ∧ t ≤ high + slack

theorem hasRoom_iff {low high : Rat} : HasRoom low high ↔ ¬ below high < above low :=
  exists_onGrid_iff.trans not_lt.symm

end Tenth

namespace InsertRules
variable {r : InsertRules Rat}

/-- An end that is chosen is on the grid exactly if there is room for a tenth. -/
theorem Chooses.onGrid_iff {start e : Rat} (he : r.Chooses start e)
    (h : r.minDuration ≤ r.maxDuration) :
    Tenth.OnGrid e ↔ Tenth.HasRoom (start + r.minDuration) (start + r.maxDuration) := by
  constructor
  · exact fun hgrid => ⟨e, hgrid, he.within h⟩
  · intro hroom
    cases he with
    | offGrid d none => exact absurd none (Tenth.hasRoom_iff.mp hroom)
    | onGrid grid low high => exact grid

end InsertRules

namespace Tenth

/-- Times are moved to the grid in order and by little, and an end leaves the grid exactly if there
is no tenth in its range, widened by the slack on both sides. -/
theorem moves_and_room :
    (MovesToGrid above ∧ MovesToGrid below ∧ MovesToGrid nearest) ∧
      (∀ t : Rat, below t ≤ nearest t ∧ nearest t ≤ above t) ∧
      (∀ t : Rat, t - slack ≤ above t ∧ above t < t + 1 / 10) ∧
      (∀ t : Rat, t - 1 / 10 < below t ∧ below t ≤ t + slack) ∧
      (∀ s t : Rat, below t < above s ↔ ¬ HasRoom s t) ∧
      ∀ r : InsertRules Rat, r.minDuration ≤ r.maxDuration → ∀ start stop : Rat,
        (¬ OnGrid (r.fitEnd start stop) ↔
          ¬ HasRoom (start + r.minDuration) (start + r.maxDuration)) ∧
        (¬ OnGrid (r.endWithin start stop) ↔
          ¬ HasRoom (start + r.minDuration) (start + r.maxDuration)) := by
  refine ⟨⟨movesToGrid_above, movesToGrid_below, movesToGrid_nearest⟩, ?_, ?_, ?_, ?_, ?_⟩
  · exact fun t => ⟨below_le_nearest t, nearest_le_above t⟩
  · exact fun t => ⟨le_above t, above_lt t⟩
  · exact fun t => ⟨lt_below t, below_le t⟩
  · exact fun s t => not_le.symm.trans (not_congr exists_onGrid_iff.symm)
  · intro r h start stop
    exact ⟨not_congr ((r.chooses_fitEnd start stop).onGrid_iff h),
      not_congr ((r.chooses_endWithin start stop).onGrid_iff h)⟩

/-- Between 14.02 and 14.08 there is no tenth, between 14.07 and 14.13 there is one. -/
theorem moves_and_room_narrowRules :
    let r := InsertRules.narrowRules
    r.minDuration ≤ r.maxDuration ∧
      r.fitEnd 10 14 = 1402 / 100 ∧ ¬ OnGrid (r.fitEnd 10 14) ∧
      r.endWithin 10 15 = 1408 / 100 ∧ ¬ OnGrid (r.endWithin 10 15) ∧
      r.endWithin (1005 / 100) 15 = 141 / 10 ∧ OnGrid (r.endWithin (1005 / 100) 15) := by
  intro r
  have h : r.minDuration ≤ r.maxDuration := by decide +kernel
  obtain ⟨-, -, -, -, hroom, hends⟩ := moves_and_room
  have hnone : ¬ HasRoom (10 + r.minDuration) (10 + r.maxDuration) :=
    (hroom _ _).mp (by decide +kernel)
  have hsome : ¬ ¬ HasRoom (1005 / 100 + r.minDuration) (1005 / 100 + r.maxDuration) :=
    (not_congr (hroom _ _)).mp (by decide +kernel)
  exact ⟨h, by decide +kernel, (hends r h 10 14).1.mpr hnone, by decide +kernel,
    (hends r h 10 15).2.mpr hnone, by decide +kernel,
    not_not.mp ((not_congr (hends r h (1005 / 100) 15).2).mpr hsome)⟩

end Tenth

end Montage
