import Mathlib.Data.List.TakeWhile
import Montage.Decimal.Basic

/-!
# Numbers read from their digits

A natural number that is written in digits is read as itself, where a natural number is read as well
as where any numeral is.
-/

namespace Montage

namespace Decimal

theorem readDigits_eq (n : Nat) (s : List Char) : readDigits n s = Nat.ofDigitChars 10 s n := by
  induction s generalizing n with
  | nil => exact Nat.ofDigitChars_nil.symm
  | cons c s ih =>
    rw [Nat.ofDigitChars_cons]
    exact ih (10 * n + (c.toNat - 48))

theorem readDigits_toDigits (n : Nat) : readDigits 0 (Nat.toDigits 10 n) = n := by
  rw [readDigits_eq, Nat.ofDigitChars_ten_toDigits]

theorem all_isDigit_toDigits (n : Nat) : (Nat.toDigits 10 n).all isDigit = true :=
  List.all_eq_true.mpr fun _ hc => Nat.isDigit_of_mem_toDigits (by decide) (by decide) hc

/-- The first digit of a number is no sign. -/
theorem exists_toDigits (n : Nat) :
    ∃ c s, Nat.toDigits 10 n = c :: s ∧ c ≠ '+' ∧ c ≠ '-' := by
  cases hs : Nat.toDigits 10 n with
  | nil => exact absurd hs Nat.toDigits_ne_nil
  | cons c s =>
    have hdigit : isDigit c = true :=
      List.all_eq_true.mp (all_isDigit_toDigits n) c (hs ▸ List.mem_cons_self)
    refine ⟨c, s, rfl, ?_, ?_⟩
    · rintro rfl
      exact absurd hdigit (by decide)
    · rintro rfl
      exact absurd hdigit (by decide)

theorem natural?_toString (n : Nat) : natural? (toString n).toList = some n := by
  have htext : (toString n).toList = Nat.toDigits 10 n := Nat.toList_repr
  have hdigits := all_isDigit_toDigits n
  have hvalue := readDigits_toDigits n
  obtain ⟨c, s, hs, hplus, -⟩ := exists_toDigits n
  rw [htext]
  rw [hs] at hdigits hvalue ⊢
  simp [natural?, hplus, hdigits, hvalue]

theorem readUnsigned?_toDigits (negative : Bool) (n : Nat) :
    readUnsigned? negative (Nat.toDigits 10 n) = some ⟨negative, n, 0⟩ := by
  have hdigits := List.all_eq_true.mp (all_isDigit_toDigits n)
  have hwhole : (Nat.toDigits 10 n).takeWhile isDigit = Nat.toDigits 10 n :=
    List.takeWhile_eq_self_iff.mpr hdigits
  have hrest : (Nat.toDigits 10 n).dropWhile isDigit = [] := List.dropWhile_eq_nil_iff.mpr hdigits
  have hne : Nat.toDigits 10 n ≠ [] := Nat.toDigits_ne_nil
  simp [readUnsigned?, hwhole, hrest, splitFraction, readExponent?, hne, readDigits_toDigits]

end Decimal

theorem Numeral.read?_toString (n : Nat) :
    Numeral.read? (toString n) = some (.decimal ⟨false, n, 0⟩) := by
  have hvalue := Decimal.readUnsigned?_toDigits false n
  obtain ⟨c, s, hs, hplus, hminus⟩ := Decimal.exists_toDigits n
  rw [hs] at hvalue
  simp [read?, hs, hplus, hminus, hvalue]

end Montage
