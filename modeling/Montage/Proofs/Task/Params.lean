import Montage.Task.Params
import Montage.Proofs.Decimal.Digits
import Montage.Proofs.Text.Blank
import Montage.Proofs.Json.Record
import Montage.Proofs.Time.Words

/-!
# Values of parameters

What a field of the parameters is written as is read as the same value. A size is read as any number
and rounded, which leaves a whole one as it is; a ratio is read from its text, whose sides are
digits again. A list without texts is left out, and reading fills it in.
-/

namespace Montage
open TimeScale

namespace AspectRatio

theorem side?_text (n : UInt32) : side? (toString n.toNat) = some n := by
  have hlt : n.toNat < Nat.pow 2 32 := n.toNat_lt
  rw [side?, (Text.isLabel_natText n.toNat).trim, Decimal.natural?_toString]
  simp [Option.filter, hlt]

theorem ofText_text {r : AspectRatio} (hwidth : r.width ≠ 0) (hheight : r.height ≠ 0) :
    ofText r.text = .ok r := by
  have hcolon (c : Char) (hc : c ∈ (toString r.width.toNat).toList) : decide (c ≠ ':') = true := by
    have hmem : c ∈ Nat.toDigits 10 r.width.toNat := Nat.toList_repr ▸ hc
    have hdigit := Nat.isDigit_of_mem_toDigits (by decide) (by decide) hmem
    rw [decide_eq_true_eq]
    rintro rfl
    exact absurd hdigit (by decide)
  have htext : r.text.toList =
      (toString r.width.toNat).toList ++ ':' :: (toString r.height.toNat).toList := by
    simp [text]
  rw [ofText, htext, List.dropWhile_append_of_pos hcolon, List.takeWhile_append_of_pos hcolon]
  have hstop : decide (':' ≠ ':') = false := by decide
  simp only [List.dropWhile_cons, List.takeWhile_cons, hstop, Bool.false_eq_true, ↓reduceIte,
    List.append_nil, String.ofList_toList, side?_text]
  simp [hwidth, hheight]

/-- A text with a zero side is refused. -/
theorem sides_of_ofText {s : String} {r : AspectRatio} (h : ofText s = .ok r) :
    r.width ≠ 0 ∧ r.height ≠ 0 := by
  unfold ofText at h
  dsimp only at h
  split at h
  · cases h
  · split at h
    · split at h
      · split_ifs at h with hzero
        obtain rfl := Except.ok.inj h
        simpa [not_or] using hzero
      · cases h
    · cases h

end AspectRatio

/-! ## Values of fields -/

section
variable {T : Type}

theorem readsBack_plainText : (plainText : Reader T String).ReadsBack Json.text := fun _ => rfl

theorem readsBack_bool : (Reader.bool : Reader T Bool).ReadsBack Json.bool := fun _ => rfl

theorem readsBack_path : (Config.path : Reader T Path).ReadsBack fun p => .text p.text :=
  fun _ => rfl

theorem AspectRatio.read_text {r : AspectRatio} (hwidth : r.width ≠ 0) (hheight : r.height ≠ 0) :
    (AspectRatio.reader : Reader T AspectRatio).read (.text r.text) = .ok r := by
  have htext : (plainText : Reader T String).read (.text r.text) = .ok r.text := rfl
  simp [AspectRatio.reader, Reader.andThen, htext, Except.bind, ofText_text hwidth hheight]

variable [TimeScale T]

/-- A whole size is rounded to itself. -/
theorem readsBack_pixels [HoldsWords T] : (pixels : Reader T UInt32).ReadsBack Json.word := by
  intro n
  have hlt : n.toNat < 2 ^ 32 := n.toNat_lt
  have hread : (pixels : Reader T UInt32).read (Json.word n) =
      if isFinite (ofInt n.toNat : T) && decide ((zero : T) ≤ ofInt n.toNat) &&
          decide ((ofInt n.toNat : T) ≤ ofNat (Nat.pow 2 32 - 1)) then
        .ok (UInt32.ofNat (toWord (TimeScale.round (ofInt n.toNat : T))))
      else .error (.notWhole (ofInt n.toNat : T)) := rfl
  rw [hread, HoldsWords.toWord_round n.toNat hlt, UInt32.ofNat_toNat, if_pos]
  simp only [Bool.and_eq_true, decide_eq_true_eq]
  exact ⟨⟨HoldsWords.finite_ofInt n.toNat hlt, HoldsWords.zero_le n.toNat hlt⟩,
    HoldsWords.le_greatest n.toNat hlt⟩

end

/-! ## Members of fields -/

namespace Field.Writes
variable {T α : Type} {r : Reader T α} {name : String}

theorem memberTexts {write : α → String} (h : r.ReadsBack fun a => .text (write a))
    (as : List α) :
    (Field.defaulted name r.list []).Writes (memberTexts name (as.map write)) as := by
  cases as with
  | nil => exact .left rfl
  | cons a as =>
    apply Field.Writes.here
    rw [Json.texts, List.map_map]
    exact h.list (a :: as)

theorem plainTexts (ss : List String) :
    (Field.defaulted name (.list plainText) []).Writes (Montage.memberTexts name ss : Members T)
      ss := by
  have htexts : (Field.defaulted name (.list plainText) []).Writes
      (Montage.memberTexts name (ss.map id) : Members T) ss := memberTexts readsBack_plainText ss
  rwa [List.map_id] at htexts

end Field.Writes

end Montage
