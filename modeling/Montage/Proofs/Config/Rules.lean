import Montage.Proofs.Time.Tenth
import Montage.Config.Rules

/-!
# Durations under the rules

A duration that was moved into the range lies in it, and is moved no further, also where the range
is inverted. An end is chosen on the grid of tenths between those that bound the range, or off the
grid where there are none between them.
-/

namespace Montage
open TimeScale

namespace InsertRules
variable (r : InsertRules Rat)

theorem clampDuration_eq (d : Rat) :
    r.clampDuration d = min (max d r.minDuration) r.maxDuration := by
  simp only [clampDuration, Exact.later_eq, Exact.earlier_eq]

theorem clampDuration_bounds (h : r.minDuration ≤ r.maxDuration) (d : Rat) :
    r.minDuration ≤ r.clampDuration d ∧ r.clampDuration d ≤ r.maxDuration := by
  rw [clampDuration_eq]
  exact ⟨le_min (le_max_right _ _) h, min_le_right _ _⟩

theorem clampDuration_clampDuration (d : Rat) :
    r.clampDuration (r.clampDuration d) = r.clampDuration d := by
  simp only [clampDuration_eq]
  obtain h | h := le_total r.minDuration r.maxDuration
  · rw [max_eq_left (le_min (le_max_right _ _) h), min_eq_left (min_le_right _ _)]
  · rw [min_eq_right (h.trans (le_max_right _ _)), min_eq_right (h.trans (le_max_right _ _))]

/-- The ends that the rules choose for what starts at `start`. -/
inductive Chooses (start : Rat) : Rat → Prop
  | offGrid (d : Rat)
      (none : Tenth.below (start + r.maxDuration) < Tenth.above (start + r.minDuration)) :
      Chooses start (start + r.clampDuration d)
  | onGrid {e : Rat} (grid : Tenth.OnGrid e) (low : Tenth.above (start + r.minDuration) ≤ e)
      (high : e ≤ Tenth.below (start + r.maxDuration)) : Chooses start e

/-- Off the grid the duration is in the range exactly, on the grid up to the slack. -/
theorem Chooses.within {r : InsertRules Rat} {start e : Rat} (he : r.Chooses start e)
    (h : r.minDuration ≤ r.maxDuration) :
    start + r.minDuration - Tenth.slack ≤ e ∧ e ≤ start + r.maxDuration + Tenth.slack := by
  cases he with
  | offGrid d _ =>
    obtain ⟨hlow, hhigh⟩ := r.clampDuration_bounds h d
    constructor <;> linarith [Tenth.slack_pos]
  | onGrid grid low high =>
    exact ⟨(Tenth.le_above _).trans low, high.trans (Tenth.below_le _)⟩

end InsertRules

end Montage
