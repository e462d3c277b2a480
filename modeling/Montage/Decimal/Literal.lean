import Montage.Decimal.Basic

/-!
# Numbers of a document

A number keeps the digits it is written with, those in front of the point apart from those behind
it: a scale that holds fewer digits decides which of them it reads. `Literal.decimal` is the number
itself.
-/

namespace Montage

structure Literal where
  negative : Bool
  whole : List Char
  /-- Digits behind the point, if there is one. -/
  fraction : Option (List Char)
  /-- The power of ten, if one is written. -/
  power : Option Int
  deriving DecidableEq, Repr

namespace Literal

/-- A number of the JSON grammar: no plus sign, no leading zero, digits on both sides of a point. -/
def read? (s : List Char) : Option Literal := do
  let (negative, t) := match s with
    | '-' :: t => (true, t)
    | t => (false, t)
  let whole := t.takeWhile Decimal.isDigit
  let (fraction, rest) := Decimal.splitFraction (t.dropWhile Decimal.isDigit)
  let leadingZero := whole.length ≠ 1 && whole.head? = some '0'
  if whole.isEmpty || leadingZero || fraction.any List.isEmpty then none
  let e ← Decimal.readExponent? rest
  return { negative, whole, fraction, power := if rest.isEmpty then none else some e }

/-- Written without point and power. -/
def isWhole (n : Literal) : Bool := n.fraction.isNone && n.power.isNone

def places (n : Literal) : Nat := (n.fraction.getD []).length

def decimal (n : Literal) : Decimal where
  negative := n.negative
  digits := Decimal.readDigits 0 (n.whole ++ n.fraction.getD [])
  exponent := n.power.getD 0 - n.places

end Literal

end Montage
