/-!
# Text measured in bytes

A character takes one to four bytes of UTF-8. Texts are measured and cut by bytes; a cut inside a
character falls behind it. Cutting at the end of a beginning gives back that beginning and what
follows it (`takeBytes_append`, `dropBytes_append`).
-/

namespace Montage.Text.Chars

def bytes : List Char → Nat
  | [] => 0
  | c :: s => c.utf8Size + bytes s

/-- The characters that begin within the first `n` bytes. -/
def takeBytes (n : Nat) : List Char → List Char
  | [] => []
  | c :: s => if n = 0 then [] else c :: takeBytes (n - c.utf8Size) s

/-- The characters that do not begin within the first `n` bytes. -/
def dropBytes (n : Nat) : List Char → List Char
  | [] => []
  | c :: s => if n = 0 then c :: s else dropBytes (n - c.utf8Size) s

theorem takeBytes_zero (s : List Char) : takeBytes 0 s = [] := by
  cases s <;> simp [takeBytes]

theorem dropBytes_zero (s : List Char) : dropBytes 0 s = s := by
  cases s <;> simp [dropBytes]

theorem takeBytes_append (s t : List Char) : takeBytes (bytes s) (s ++ t) = s := by
  induction s with
  | nil => exact takeBytes_zero t
  | cons c s ih =>
    have := c.utf8Size_pos
    simp only [bytes, List.cons_append, takeBytes, Nat.add_sub_cancel_left, ih]
    rw [if_neg (by omega)]

theorem dropBytes_append (s t : List Char) : dropBytes (bytes s) (s ++ t) = t := by
  induction s with
  | nil => exact dropBytes_zero t
  | cons c s ih =>
    have := c.utf8Size_pos
    simp only [bytes, List.cons_append, dropBytes, Nat.add_sub_cancel_left, ih]
    rw [if_neg (by omega)]

end Montage.Text.Chars
