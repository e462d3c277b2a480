import Montage.Text.Ranges

/-!
# Blanks

The characters of the Unicode property White_Space, and the two operations on text that are built
on them: cutting blanks off both ends, and splitting a text into its words.
-/

namespace Montage.Text

/-- White_Space: tab to carriage return, space, next line, the no-break and the fixed-width spaces,
the line and paragraph separators. -/
def blanks : Ranges := [
  (0x9, 0xd), (0x20, 0x20), (0x85, 0x85), (0xa0, 0xa0), (0x1680, 0x1680), (0x2000, 0x200a),
  (0x2028, 0x2029), (0x202f, 0x202f), (0x205f, 0x205f), (0x3000, 0x3000)]

def isBlank (c : Char) : Bool := blanks.has c

namespace Chars

/-- Without the blanks at either end. -/
def trim (s : List Char) : List Char :=
  ((s.dropWhile isBlank).reverse.dropWhile isBlank).reverse

/-- Maximal runs of characters that `sep` does not hold of, empty runs included: one more than there
are separators. -/
def split (sep : Char → Bool) : List Char → List (List Char)
  | [] => [[]]
  | c :: s =>
    if sep c then [] :: split sep s
    else match split sep s with
      | [] => [[c]]
      | w :: ws => (c :: w) :: ws

theorem split_ne_nil (sep : Char → Bool) (s : List Char) : split sep s ≠ [] := by
  cases s with
  | nil => simp [split]
  | cons c s =>
    simp only [split]
    split
    · simp
    · split <;> simp

end Chars

/-- Without the blanks at either end. -/
def trim (s : String) : String := String.ofList (Chars.trim s.toList)

/-- The non-blank runs of a text, in order. -/
def words (s : String) : List String :=
  ((Chars.split isBlank s.toList).filter fun w => !w.isEmpty).map String.ofList

/-- A text of blanks alone, or of nothing. -/
def isBlankText (s : String) : Bool := s.toList.all isBlank

/-- The parts of a text between the occurrences of `c`. -/
def splitAt (c : Char) (s : String) : List String :=
  (Chars.split (· == c) s.toList).map String.ofList

def take (n : Nat) (s : String) : String := String.ofList (s.toList.take n)

end Montage.Text
