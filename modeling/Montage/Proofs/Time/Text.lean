import Montage.Proofs.Text.Blank
import Montage.Time.Text

/-!
# Times without blanks

A number of the binary scale is written with digits, a point, an exponent and signs, or as one of
three words. None of them has a blank in it, so that a number that is written without quotes can
stand for a name.
-/

namespace Montage

namespace Decimal

/-- Characters, one at least, and no blanks. -/
def Unblank (s : List Char) : Prop := s ≠ [] ∧ ∀ c ∈ s, Text.isBlank c = false

theorem isBlank_of_mem_digitsOf {n : Nat} {c : Char} (h : c ∈ digitsOf n) :
    Text.isBlank c = false :=
  Text.isBlank_of_isDigit (Nat.isDigit_of_mem_toDigits (by decide) (by decide) h)

theorem isBlank_of_mem_replicate {n : Nat} {c : Char} (h : c ∈ List.replicate n '0') :
    Text.isBlank c = false := by
  obtain rfl := List.eq_of_mem_replicate h
  decide

theorem unblank_digitsOf (n : Nat) : Unblank (digitsOf n) :=
  ⟨Nat.toDigits_ne_nil, fun _ => isBlank_of_mem_digitsOf⟩

theorem Layout.unblank_positional (l : Layout) {ds : List Char} (h : Unblank ds) (e : Int) :
    Unblank (l.positional ds e) := by
  have hpoint : Text.isBlank '.' = false := by decide
  have hzero : Text.isBlank '0' = false := by decide
  unfold positional
  dsimp only
  split_ifs
  · refine ⟨by simp [h.1], fun c hc => ?_⟩
    simp only [List.mem_append, List.mem_cons, List.not_mem_nil, or_false] at hc
    obtain (hc | hc) | rfl | rfl := hc
    · exact h.2 c hc
    · exact isBlank_of_mem_replicate hc
    · exact hpoint
    · exact hzero
  · refine ⟨by simp [h.1], fun c hc => ?_⟩
    rw [List.append_nil] at hc
    exact (List.mem_append.mp hc).elim (h.2 c) isBlank_of_mem_replicate
  · refine ⟨by simp, fun c hc => ?_⟩
    obtain hc | hc := List.mem_append.mp hc
    · exact h.2 c (List.mem_of_mem_take hc)
    · obtain rfl | hc := List.mem_cons.mp hc
      · exact hpoint
      · exact h.2 c (List.mem_of_mem_drop hc)
  · refine ⟨by simp, fun c hc => ?_⟩
    simp only [List.cons_append, List.mem_cons, List.mem_append] at hc
    obtain rfl | rfl | hc | hc := hc
    · exact hzero
    · exact hpoint
    · exact isBlank_of_mem_replicate hc
    · exact h.2 c hc

theorem Layout.unblank_scientific (l : Layout) {ds : List Char} (h : Unblank ds) (power : Int) :
    Unblank (l.scientific ds power) := by
  have hsign : ∀ c ∈ (if power < 0 then ['-'] else if l.signExponent then ['+'] else []),
      Text.isBlank c = false := by
    split_ifs <;> exact Text.not_blank_of_all (by decide)
  unfold scientific
  dsimp only
  refine ⟨by simp, fun c hc => ?_⟩
  rw [List.mem_append, List.mem_append, List.mem_cons] at hc
  obtain (hc | rfl | hc) | hc := hc
  · split at hc
    · exact absurd hc List.not_mem_nil
    · exact h.2 c hc
    · obtain rfl | hc := List.mem_cons.mp hc
      · exact h.2 c List.mem_cons_self
      · obtain rfl | hc := List.mem_cons.mp hc
        · decide
        · exact h.2 c (List.mem_cons_of_mem _ hc)
  · decide
  · exact hsign c hc
  · exact isBlank_of_mem_digitsOf hc

theorem Layout.unblank_write (l : Layout) (c : Nat) (e : Int) : Unblank (l.write c e) := by
  unfold write
  dsimp only
  split_ifs
  · exact l.unblank_positional (unblank_digitsOf c) e
  · exact l.unblank_scientific (unblank_digitsOf c) _

end Decimal

namespace Binary

theorem isLabel_spell {write : Parts → List Char} (h : ∀ p, Decimal.Unblank (write p))
    (x : Float) : Text.IsLabel (spell write x) := by
  have hlabel (s : String) (hs : Decimal.Unblank s.toList) : Text.IsLabel s :=
    .of_forall hs.1 hs.2
  unfold spell
  dsimp only
  split_ifs
  · exact hlabel "NaN" ⟨by decide, Text.not_blank_of_all (by decide)⟩
  · exact hlabel "-inf" ⟨by decide, Text.not_blank_of_all (by decide)⟩
  · exact hlabel "inf" ⟨by decide, Text.not_blank_of_all (by decide)⟩
  · apply hlabel
    rw [String.toList_ofList]
    exact ⟨List.cons_ne_nil _ _, List.forall_mem_cons.mpr ⟨by decide, (h (parts x)).2⟩⟩
  · apply hlabel
    rw [String.toList_ofList]
    exact h (parts x)

theorem isLabel_layOut (l : Decimal.Layout) (x : Float) : Text.IsLabel (layOut l x) := by
  refine isLabel_spell (fun p => ?_) x
  dsimp only
  split_ifs
  · unfold Decimal.Layout.zero
    split_ifs <;> exact ⟨by decide, Text.not_blank_of_all (by decide)⟩
  · exact l.unblank_write _ _

theorem isLabel_json (x : Float) : Text.IsLabel (Spelled.json x) := isLabel_layOut .json x

end Binary

end Montage
