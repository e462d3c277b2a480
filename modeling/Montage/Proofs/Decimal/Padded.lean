import Mathlib.Algebra.Group.Nat.Defs
import Montage.Decimal.Layout

/-!
# Numbers with zeros in front

A number that is padded with zeros is written in digits and has the value that it had, so that no
two numbers are written alike.
-/

namespace Montage

theorem mem_padded {width n : Nat} {c : Char} (h : c ∈ (padded width n).toList) :
    c.isDigit = true := by
  unfold padded at h
  rw [String.toList_ofList] at h
  rcases List.mem_append.mp h with hzero | hdigit
  · rw [List.eq_of_mem_replicate hzero]
    decide
  · exact Nat.isDigit_of_mem_toDigits (by decide) (by decide) hdigit

theorem not_mem_padded {c : Char} (hc : c.isDigit = false) (width n : Nat) :
    c ∉ (padded width n).toList := by
  intro hmem
  rw [mem_padded hmem] at hc
  exact absurd hc (by decide)

theorem ofDigitChars_padded (width n : Nat) :
    Nat.ofDigitChars 10 (padded width n).toList 0 = n := by
  have hzeros (k : Nat) :
      Nat.ofDigitChars 10 (List.replicate k '0' ++ Decimal.digitsOf n) 0 = n := by
    induction k with
    | zero => exact Nat.ofDigitChars_ten_toDigits
    | succ k ih => exact ih
  unfold padded
  rw [String.toList_ofList]
  exact hzeros _

theorem length_padded (width n : Nat) :
    (padded width n).toList.length = max width (Decimal.digitsOf n).length := by
  unfold padded
  rw [String.toList_ofList, List.length_append, List.length_replicate]
  omega

theorem length_padded_of_lt {width n : Nat} (hwidth : 0 < width) (h : n < 10 ^ width) :
    (padded width n).toList.length = width := by
  rw [length_padded]
  exact Nat.max_eq_left ((Nat.length_toDigits_le_iff (by decide) hwidth).mpr h)

theorem padded_injective (width : Nat) : Function.Injective (padded width) := by
  intro m n h
  rw [← ofDigitChars_padded width m, h, ofDigitChars_padded width n]

end Montage
