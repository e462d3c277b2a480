/-!
# Hexadecimal digits
-/

namespace Montage.Text

/-- Hexadecimal digits of `n`, without leading zeros. -/
def hex (n : Nat) : List Char := Nat.toDigits 16 n

/-- Value of a hexadecimal digit, capital or small. -/
def hexDigit? (c : Char) : Option Nat :=
  if '0' ≤ c && c ≤ '9' then some (c.toNat - 48)
  else if 'a' ≤ c && c ≤ 'f' then some (c.toNat - 87)
  else if 'A' ≤ c && c ≤ 'F' then some (c.toNat - 55)
  else none

def hexValue? (s : List Char) : Option Nat :=
  s.foldl (fun n c => do return 16 * (← n) + (← hexDigit? c)) (some 0)

end Montage.Text
