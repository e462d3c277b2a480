import Mathlib.Data.List.DropRight
import Montage.Text.Blank

/-!
# Texts that stand as they are

Cutting blanks off the ends of a text leaves one that stands as it is: there are no more to cut off.
A text without any blank, such as the digits of a number, stands as it is from the start.
-/

namespace Montage.Text

namespace Chars

theorem trim_eq_rdropWhile (s : List Char) : trim s = (s.dropWhile isBlank).rdropWhile isBlank :=
  rfl

theorem dropWhile_trim (s : List Char) : (trim s).dropWhile isBlank = trim s := by
  have hfront : trim s <+: s.dropWhile isBlank := List.rdropWhile_prefix isBlank _
  rw [List.dropWhile_eq_self_iff]
  intro hl
  rw [hfront.getElem hl]
  exact List.dropWhile_get_zero_not isBlank s (hl.trans_le hfront.length_le)

theorem trim_trim (s : List Char) : trim (trim s) = trim s := by
  rw [trim_eq_rdropWhile, dropWhile_trim, trim_eq_rdropWhile, List.rdropWhile_idempotent]

theorem trim_of_forall {s : List Char} (h : ∀ c ∈ s, isBlank c = false) : trim s = s := by
  have hdrop : s.dropWhile isBlank = s := by
    rw [List.dropWhile_eq_self_iff]
    intro hl
    simp [h s[0] (List.getElem_mem hl)]
  rw [trim_eq_rdropWhile, hdrop, List.rdropWhile_eq_self_iff]
  intro hl
  simp [h _ (List.getLast_mem hl)]

/-- Of a text that is not blank, something is left. -/
theorem all_trim (s : List Char) : (trim s).all isBlank = s.all isBlank := by
  cases hall : s.all isBlank with
  | true =>
    have hdrop : s.dropWhile isBlank = [] :=
      List.dropWhile_eq_nil_iff.mpr (List.all_eq_true.mp hall)
    rw [trim_eq_rdropWhile, hdrop]
    rfl
  | false =>
    rw [Bool.eq_false_iff]
    intro htrim
    have hnil : trim s = [] := by
      rw [← dropWhile_trim]
      exact List.dropWhile_eq_nil_iff.mpr (List.all_eq_true.mp htrim)
    rw [trim_eq_rdropWhile, List.rdropWhile_eq_nil_iff, ← List.dropWhile_eq_nil_iff,
      List.dropWhile_idempotent, List.dropWhile_eq_nil_iff, ← List.all_eq_true, hall] at hnil
    exact absurd hnil Bool.false_ne_true

end Chars

theorem trim_trim (s : String) : trim (trim s) = trim s := by
  unfold trim
  rw [String.toList_ofList, Chars.trim_trim]

theorem isBlankText_trim (s : String) : isBlankText (trim s) = isBlankText s := by
  unfold trim isBlankText
  rw [String.toList_ofList, Chars.all_trim]

theorem trim_of_isBlankText {s : String} (h : isBlankText s = true) : trim s = "" := by
  have hdrop : s.toList.dropWhile isBlank = [] :=
    List.dropWhile_eq_nil_iff.mpr (List.all_eq_true.mp h)
  unfold trim
  rw [Chars.trim_eq_rdropWhile, hdrop]
  rfl

theorem trim_eq_empty_iff (s : String) : trim s = "" ↔ isBlankText s = true := by
  refine ⟨fun h => ?_, trim_of_isBlankText⟩
  rw [← isBlankText_trim, h]
  rfl

/-- A text that is not blank, and has no blanks at its ends. -/
structure IsLabel (s : String) : Prop where
  trim : Text.trim s = s
  isBlankText : Text.isBlankText s = false

namespace IsLabel

theorem of_trim {s : String} (h : Text.isBlankText s = false) : IsLabel (Text.trim s) where
  trim := trim_trim s
  isBlankText := (isBlankText_trim s).trans h

theorem of_forall {s : String} (hne : s.toList ≠ []) (h : ∀ c ∈ s.toList, isBlank c = false) :
    IsLabel s where
  trim := by
    unfold Text.trim
    rw [Chars.trim_of_forall h, String.ofList_toList]
  isBlankText := by
    unfold Text.isBlankText
    rw [List.all_eq_false]
    obtain ⟨c, hc⟩ := List.exists_mem_of_ne_nil _ hne
    exact ⟨c, hc, by simp [h c hc]⟩

end IsLabel

theorem not_blank_of_all {s : List Char} (h : (s.all fun c => !isBlank c) = true) :
    ∀ c ∈ s, isBlank c = false := by
  simpa using h

theorem isBlank_of_isDigit {c : Char} (h : c.isDigit = true) : isBlank c = false := by
  have hrange : 48 ≤ c.toNat ∧ c.toNat ≤ 57 := by
    simpa [Char.isDigit, UInt32.le_iff_toNat_le] using h
  rw [Bool.eq_false_iff, isBlank, Ne, Ranges.has_iff]
  rintro ⟨p, hp, hlow, hhigh⟩
  simp only [blanks, List.mem_cons, List.not_mem_nil, or_false] at hp
  rcases hp with rfl | rfl | rfl | rfl | rfl | rfl | rfl | rfl | rfl | rfl <;>
    simp only at hlow hhigh <;> omega

theorem isBlank_of_mem_natText {n : Nat} {c : Char} (h : c ∈ (toString n).toList) :
    isBlank c = false := by
  have htext : (toString n).toList = Nat.toDigits 10 n := Nat.toList_repr
  rw [htext] at h
  exact isBlank_of_isDigit (Nat.isDigit_of_mem_toDigits (by decide) (by decide) h)

theorem natText_ne_nil (n : Nat) : (toString n).toList ≠ [] := by
  have htext : (toString n).toList = Nat.toDigits 10 n := Nat.toList_repr
  rw [htext]
  exact Nat.toDigits_ne_nil

theorem isLabel_natText (n : Nat) : IsLabel (toString n) :=
  .of_forall (natText_ne_nil n) fun _ hc => isBlank_of_mem_natText hc

theorem intText_negSucc (n : Nat) :
    (toString (Int.negSucc n)).toList = '-' :: (toString (n + 1)).toList := by
  have hsign : toString (Int.negSucc n) = "-" ++ toString (n + 1) := rfl
  rw [hsign, String.toList_append]
  rfl

theorem isBlank_of_mem_intText {i : Int} {c : Char} (h : c ∈ (toString i).toList) :
    isBlank c = false := by
  cases i with
  | ofNat n => exact isBlank_of_mem_natText h
  | negSucc n =>
    rw [intText_negSucc] at h
    obtain rfl | h := List.mem_cons.mp h
    · decide
    · exact isBlank_of_mem_natText h

theorem intText_ne_nil (i : Int) : (toString i).toList ≠ [] := by
  cases i with
  | ofNat n => exact natText_ne_nil n
  | negSucc n =>
    rw [intText_negSucc]
    exact List.cons_ne_nil _ _

theorem isLabel_intText (i : Int) : IsLabel (toString i) :=
  .of_forall (intText_ne_nil i) fun _ hc => isBlank_of_mem_intText hc

end Montage.Text
