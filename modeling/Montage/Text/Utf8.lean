/-!
# Bytes read as text

Output of other programs is read as UTF-8. Each longest piece that starts a character and does not
finish it, and each byte that starts none, reads as one replacement character.
-/

namespace Montage.Text.Utf8

/-- Between characters, or inside one: how many bytes are owed, the bounds of the next byte, and the
bits gathered so far. -/
inductive State where
  | start
  | inside (owed : Nat) (low high : Nat) (bits : Nat)

def replacement : Char := Char.ofNat 0xfffd

/-- The first byte of a character, read from between characters. -/
def first (b : Nat) : List Char × State :=
  if b < 0x80 then ([Char.ofNat b], .start)
  else if 0xc2 ≤ b && b ≤ 0xdf then ([], .inside 1 0x80 0xbf (b % 32))
  else if b = 0xe0 then ([], .inside 2 0xa0 0xbf 0)
  else if b = 0xed then ([], .inside 2 0x80 0x9f 0xd)
  else if 0xe1 ≤ b && b ≤ 0xef then ([], .inside 2 0x80 0xbf (b % 16))
  else if b = 0xf0 then ([], .inside 3 0x90 0xbf 0)
  else if 0xf1 ≤ b && b ≤ 0xf3 then ([], .inside 3 0x80 0xbf (b % 8))
  else if b = 0xf4 then ([], .inside 3 0x80 0x8f 4)
  else ([replacement], .start)

/-- One byte further: the characters it completes, and where reading stands after it. -/
def step : State → Nat → List Char × State
  | .start, b => first b
  | .inside owed low high bits, b =>
    if low ≤ b && b ≤ high then
      let bits := bits * 64 + b % 64
      if owed ≤ 1 then ([Char.ofNat bits], .start)
      else ([], .inside (owed - 1) 0x80 0xbf bits)
    else
      let (cs, s) := first b
      (replacement :: cs, s)

def decodeFrom : State → List UInt8 → List Char
  | .start, [] => []
  | .inside .., [] => [replacement]
  | s, b :: bs =>
    let (cs, s) := step s b.toNat
    cs ++ decodeFrom s bs

/-- The text that `bytes` read as. -/
def decode (bytes : ByteArray) : String := String.ofList (decodeFrom .start bytes.toList)

end Montage.Text.Utf8
