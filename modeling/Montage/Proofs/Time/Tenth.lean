import Mathlib.Tactic.Linarith
import Mathlib.Tactic.NormNum
import Mathlib.Tactic.Ring
import Mathlib.Algebra.Order.Ring.Rat
import Montage.Time.Exact
import Montage.Time.Tenth

/-!
# Tenths of exact times

On the exact scale the operations of a time scale are those of the rationals. Moving a time up or
down to the grid of tenths oversteps it by the tolerance at most, so that a grid point that is less
than a tenth beyond another one is not beyond it. Up to the tolerance, a time is moved up to the
least grid point that is not below it, and down to the greatest that is not above it.
-/

namespace Montage
open TimeScale

/-! ## The exact scale -/

namespace Exact

theorem ofNat_eq (n : Nat) : (ofNat n : Rat) = n := rfl

theorem zero_eq : (zero : Rat) = 0 := rfl

@[simp] theorem later_eq (a b : Rat) : later a b = max a b := by
  unfold later
  rw [if_pos le_rfl]
  split
  · exact (max_eq_right (le_of_lt ‹_›)).symm
  · exact (max_eq_left (not_lt.mp ‹_›)).symm

@[simp] theorem earlier_eq (a b : Rat) : earlier a b = min a b := by
  unfold earlier
  rw [if_pos le_rfl]
  split
  · exact (min_eq_right (le_of_lt ‹_›)).symm
  · exact (min_eq_left (not_lt.mp ‹_›)).symm

theorem le_clamp {low high : Rat} (h : low ≤ high) (a : Rat) : low ≤ clamp low high a := by
  unfold clamp
  split_ifs <;> grind

theorem clamp_le (low high a : Rat) : clamp low high a ≤ high := by
  unfold clamp
  split_ifs <;> grind

theorem clamp_choice (low high a : Rat) :
    clamp low high a = low ∨ clamp low high a = high ∨ clamp low high a = a := by
  unfold clamp
  dsimp only
  split_ifs <;> tauto

theorem clamp_of_mem {low high a : Rat} (hlow : low ≤ a) (hhigh : a ≤ high) :
    clamp low high a = a := by
  simp only [clamp, if_neg (not_lt.mpr hlow), if_neg (not_lt.mpr hhigh)]

theorem round_le (x : Rat) : (Exact.round x : Rat) ≤ x + 1 / 2 := by
  unfold Exact.round
  split_ifs
  · have h := Rat.lt_floor_add_one (-x + 1 / 2)
    push_cast at h ⊢
    linarith
  · exact Rat.floor_le _

theorem le_round (x : Rat) : x - 1 / 2 ≤ (Exact.round x : Rat) := by
  unfold Exact.round
  split_ifs
  · have h := Rat.floor_le (-x + 1 / 2)
    push_cast
    linarith
  · have h := Rat.lt_floor_add_one (x + 1 / 2)
    push_cast at h
    linarith

theorem round_mono {x y : Rat} (h : x ≤ y) : Exact.round x ≤ Exact.round y := by
  unfold Exact.round
  split_ifs with hx hy hy
  · have hfloor : (-y + 1 / 2).floor ≤ (-x + 1 / 2).floor := Rat.floor_monotone (by linarith)
    omega
  · have hdown : 0 ≤ (-x + 1 / 2).floor := Rat.le_floor_iff.mpr (by push_cast; linarith)
    have hup : 0 ≤ (y + 1 / 2).floor := Rat.le_floor_iff.mpr (by push_cast; linarith)
    omega
  · exact absurd (h.trans_lt hy) hx
  · exact Rat.floor_monotone (by linarith)

end Exact

/-! ## The grid -/

namespace Tenth

/-- On the grid of tenths. -/
def OnGrid (t : Rat) : Prop := ∃ n : Int, t = n / 10

/-- How far a time may be overstepped when it is moved to the grid, in seconds. -/
def slack : Rat := 1 / 10 ^ 10

theorem slack_pos : 0 < slack := by
  unfold slack
  norm_num

theorem slack_lt : slack < 1 / 20 := by
  unfold slack
  norm_num

theorem tolerance_eq : (tolerance : Rat) = 10 * slack := by decide +kernel

theorem onGrid_nearest (t : Rat) : OnGrid (nearest t) := ⟨Exact.round (t * 10), rfl⟩

theorem onGrid_above (t : Rat) : OnGrid (above t) := ⟨(t * 10 - tolerance).ceil, rfl⟩

theorem onGrid_below (t : Rat) : OnGrid (below t) := ⟨(t * 10 + tolerance).floor, rfl⟩

theorem above_eq (t : Rat) : above t = ((t * 10 - 10 * slack).ceil : Rat) / 10 := by
  rw [← tolerance_eq]
  rfl

theorem below_eq (t : Rat) : below t = ((t * 10 + 10 * slack).floor : Rat) / 10 := by
  rw [← tolerance_eq]
  rfl

theorem nearest_eq (t : Rat) : nearest t = (Exact.round (t * 10) : Rat) / 10 := rfl

/-- Half a tenth is the most by which a time is moved. -/
theorem nearest_le (t : Rat) : nearest t ≤ t + 1 / 20 := by
  have h := Exact.round_le (t * 10)
  rw [nearest_eq]
  linarith

theorem le_nearest (t : Rat) : t - 1 / 20 ≤ nearest t := by
  have h := Exact.le_round (t * 10)
  rw [nearest_eq]
  linarith

theorem le_above (t : Rat) : t - slack ≤ above t := by
  have h : t * 10 - 10 * slack ≤ ((t * 10 - 10 * slack).ceil : Rat) := Rat.le_ceil
  rw [above_eq]
  linarith

theorem above_lt (t : Rat) : above t < t + 1 / 10 := by
  have h : ((t * 10 - 10 * slack).ceil : Rat) < t * 10 - 10 * slack + 1 := Rat.ceil_lt
  have hslack := slack_pos
  rw [above_eq]
  linarith

theorem below_le (t : Rat) : below t ≤ t + slack := by
  have h : ((t * 10 + 10 * slack).floor : Rat) ≤ t * 10 + 10 * slack := Rat.floor_le _
  rw [below_eq]
  linarith

theorem lt_below (t : Rat) : t - 1 / 10 < below t := by
  have h := Rat.lt_floor_add_one (t * 10 + 10 * slack)
  have hslack := slack_pos
  rw [below_eq]
  push_cast at h
  linarith

/-- The next point of the grid is a tenth away. -/
theorem OnGrid.le_of_lt {s t : Rat} (hs : OnGrid s) (ht : OnGrid t) (h : s < t + 1 / 10) :
    s ≤ t := by
  obtain ⟨m, rfl⟩ := hs
  obtain ⟨n, rfl⟩ := ht
  have hmn : (m : Rat) < (n + 1 : Int) := by push_cast; linarith
  have hle : (m : Rat) ≤ n := Rat.intCast_le_intCast.mpr (by
    have hlt := Rat.intCast_lt_intCast.mp hmn
    omega)
  linarith

/-- Moved up, a time is the least point of the grid that is not below it by more than the slack. -/
theorem OnGrid.above_le_iff {s t : Rat} (hs : OnGrid s) : above t ≤ s ↔ t - slack ≤ s := by
  obtain ⟨n, rfl⟩ := hs
  rw [above_eq, div_le_div_iff_of_pos_right (by norm_num), Rat.intCast_le_intCast, Rat.ceil_le_iff]
  constructor <;> intro h <;> linarith

/-- Moved down, it is the greatest that is not above it by more than the slack. -/
theorem OnGrid.le_below_iff {s t : Rat} (hs : OnGrid s) : s ≤ below t ↔ s ≤ t + slack := by
  obtain ⟨n, rfl⟩ := hs
  rw [below_eq, div_le_div_iff_of_pos_right (by norm_num), Rat.intCast_le_intCast, Rat.le_floor_iff]
  constructor <;> intro h <;> linarith

/-- There is a point of the grid between two times if the first is not moved up beyond where the
second is moved down. -/
theorem exists_onGrid_iff {s t : Rat} :
    (∃ u, OnGrid u ∧ s - slack ≤ u ∧ u ≤ t + slack) ↔ above s ≤ below t := by
  constructor
  · rintro ⟨u, hu, hs, ht⟩
    exact (hu.above_le_iff.mpr hs).trans (hu.le_below_iff.mpr ht)
  · intro h
    exact ⟨above s, onGrid_above s, le_above s, (onGrid_above s).le_below_iff.mp h⟩

theorem below_le_nearest (t : Rat) : below t ≤ nearest t := by
  refine (onGrid_below t).le_of_lt (onGrid_nearest t) ?_
  linarith [below_le t, le_nearest t, slack_lt]

theorem nearest_le_above (t : Rat) : nearest t ≤ above t := by
  refine (onGrid_nearest t).le_of_lt (onGrid_above t) ?_
  linarith [nearest_le t, le_above t, slack_lt]

/-! A time on the grid is not moved. -/

theorem OnGrid.above_eq {t : Rat} (h : OnGrid t) : above t = t := by
  have hle := le_above t
  have hslack := slack_lt
  exact le_antisymm (h.above_le_iff.mpr (by linarith [slack_pos]))
    (h.le_of_lt (onGrid_above t) (by linarith))

theorem OnGrid.below_eq {t : Rat} (h : OnGrid t) : below t = t := by
  have hle := below_le t
  have hslack := slack_lt
  exact le_antisymm ((onGrid_below t).le_of_lt h (by linarith))
    (h.le_below_iff.mpr (by linarith [slack_pos]))

theorem OnGrid.nearest_eq {t : Rat} (h : OnGrid t) : nearest t = t := by
  have hup := nearest_le t
  have hdown := le_nearest t
  exact le_antisymm ((onGrid_nearest t).le_of_lt h (by linarith))
    (h.le_of_lt (onGrid_nearest t) (by linarith))

/-! The order of times is kept. -/

theorem above_mono : Monotone (above : Rat → Rat) := fun s t h =>
  (onGrid_above t).above_le_iff.mpr (by linarith [le_above t])

theorem below_mono : Monotone (below : Rat → Rat) := fun s t h =>
  (onGrid_below s).le_below_iff.mpr (by linarith [below_le s])

theorem nearest_mono : Monotone (nearest : Rat → Rat) := fun s t h => by
  have hround := Rat.intCast_le_intCast.mpr (Exact.round_mono (show s * 10 ≤ t * 10 by linarith))
  rw [nearest_eq, nearest_eq]
  linarith

theorem OnGrid.max {s t : Rat} (hs : OnGrid s) (ht : OnGrid t) : OnGrid (max s t) := by
  rcases max_choice s t with heq | heq <;> rwa [heq]

theorem OnGrid.clamp {low high t : Rat} (hlow : OnGrid low) (hhigh : OnGrid high)
    (ht : OnGrid t) : OnGrid (clamp low high t) := by
  rcases Exact.clamp_choice low high t with heq | heq | heq <;> rwa [heq]

end Tenth

end Montage
