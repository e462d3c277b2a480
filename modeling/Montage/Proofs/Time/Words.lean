import Mathlib.Data.Rat.Cast.Order
import Montage.Proofs.Time.Tenth

/-!
# Words on a time scale

Sizes in pixels are words of 32 bits. They are read as numbers of the scale and rounded, so that a
size survives only on a scale that has these numbers. The exact scale has them, and so has the
binary one (`Proofs/Time/Whole`). No other law of a scale is needed to read again what was read.
-/

namespace Montage
open TimeScale

/-- The natural numbers below `2 ^ 32` are on the scale, and so is the default of a zoom. -/
class HoldsWords (T : Type) [TimeScale T] : Prop where
  finite_ofNat : ∀ n < 2 ^ 32, isFinite (ofNat n : T) = true
  /-- Twelve tenths, to which a picture is enlarged by default. -/
  finite_zoom : isFinite (ofDecimal ⟨false, 12, -1⟩ : T) = true
  finite_ofInt : ∀ n : Nat, n < 2 ^ 32 → isFinite (ofInt n : T) = true
  zero_le : ∀ n : Nat, n < 2 ^ 32 → (zero : T) ≤ ofInt n
  le_greatest : ∀ n : Nat, n < 2 ^ 32 → (ofInt n : T) ≤ ofNat (Nat.pow 2 32 - 1)
  toWord_round : ∀ n : Nat, n < 2 ^ 32 → toWord (TimeScale.round (ofInt n : T)) = n

namespace Exact

theorem round_natCast (n : Nat) : Exact.round (n : Rat) = n := by
  have hfloor : ((n : Rat) + 1 / 2).floor = (n : Int) := by
    apply le_antisymm
    · rw [← Int.lt_add_one_iff, Rat.floor_lt_iff]
      push_cast
      linarith
    · rw [Rat.le_floor_iff]
      push_cast
      linarith
  have hnonneg : ¬ (n : Rat) < 0 := not_lt.mpr (by exact_mod_cast Nat.zero_le n)
  rw [Exact.round, if_neg hnonneg, hfloor]

theorem toWord_natCast {n : Nat} (h : n ≤ wordMax) : toWord (n : Rat) = n := by
  have hfloor : (n : Rat).floor.toNat = n := by
    rw [← Int.cast_natCast, Rat.floor_intCast, Int.toNat_natCast]
  have hword : toWord (n : Rat) = min (n : Rat).floor.toNat wordMax := rfl
  rw [hword, hfloor, min_eq_left h]

end Exact

instance : HoldsWords Rat where
  finite_ofNat _ _ := rfl
  finite_zoom := rfl
  finite_ofInt _ _ := rfl
  zero_le n _ := by
    show ((0 : Nat) : Rat) ≤ ((n : Int) : Rat)
    rw [Int.cast_natCast]
    exact Nat.cast_le.mpr (Nat.zero_le n)
  le_greatest n hn := by
    have hle : n ≤ Nat.pow 2 32 - 1 := Nat.le_pred_of_lt hn
    show ((n : Int) : Rat) ≤ ((Nat.pow 2 32 - 1 : Nat) : Rat)
    rw [Int.cast_natCast]
    exact Nat.cast_le.mpr hle
  toWord_round n hn := by
    have hmax : n ≤ wordMax := by
      have hle : 2 ^ 32 ≤ wordMax := by decide
      omega
    have hround : TimeScale.round (ofInt n : Rat) = (n : Rat) := by
      have hint : TimeScale.round (ofInt n : Rat) = (Exact.round (n : Rat) : Rat) := rfl
      rw [hint, Exact.round_natCast, Int.cast_natCast]
    rw [hround, Exact.toWord_natCast hmax]

end Montage
