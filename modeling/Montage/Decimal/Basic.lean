/-!
# Decimal numerals

A decimal numeral is kept as its sign, its digits read as one natural number, and the power of ten
of the last digit. `Numeral.read?` reads a number field of a document: an optional sign, digits with
at most one point and an optional exponent, or one of the words for infinity and for no number.
-/

namespace Montage

/-- The number `± digits · 10 ^ exponent`. -/
structure Decimal where
  negative : Bool
  digits : Nat
  exponent : Int
  deriving DecidableEq, Repr

/-- What a number field can spell. -/
inductive Numeral where
  | decimal (d : Decimal)
  | infinity (negative : Bool)
  | undefined (negative : Bool)
  deriving DecidableEq, Repr

namespace Decimal

def isDigit (c : Char) : Bool := '0' ≤ c && c ≤ '9'

/-- Value of a run of digits that follows digits of value `acc`. -/
def readDigits (acc : Nat) : List Char → Nat
  | [] => acc
  | c :: s => readDigits (10 * acc + (c.toNat - 48)) s

/-- A natural number: digits, with a plus sign at most. -/
def natural? (s : List Char) : Option Nat :=
  let ds := match s with
    | '+' :: t => t
    | t => t
  if !ds.isEmpty && ds.all isDigit then some (readDigits 0 ds) else none

/-- Exponent part: nothing, or `e` with an optional sign and at least one digit. -/
def readExponent? : List Char → Option Int
  | [] => some 0
  | c :: s =>
    if c = 'e' || c = 'E' then
      let (negative, ds) := match s with
        | '-' :: t => (true, t)
        | '+' :: t => (false, t)
        | t => (false, t)
      if !ds.isEmpty && ds.all isDigit then
        let n : Int := readDigits 0 ds
        some (if negative then -n else n)
      else none
    else none

/-- The part of a numeral after its whole digits: the digits behind a point, if one follows, and
what is left of the text. -/
def splitFraction : List Char → Option (List Char) × List Char
  | '.' :: s => (some (s.takeWhile isDigit), s.dropWhile isDigit)
  | s => (none, s)

def readUnsigned? (negative : Bool) (s : List Char) : Option Decimal := do
  let whole := s.takeWhile isDigit
  let (point, rest) := splitFraction (s.dropWhile isDigit)
  let fraction := point.getD []
  if whole.isEmpty && fraction.isEmpty then none
  let e ← readExponent? rest
  return { negative, digits := readDigits 0 (whole ++ fraction), exponent := e - fraction.length }

end Decimal

namespace Numeral

def ofWord? (negative : Bool) (s : List Char) : Option Numeral :=
  let w := String.ofList (s.map Char.toLower)
  if w = "inf" || w = "infinity" then some (.infinity negative)
  else if w = "nan" then some (.undefined negative)
  else none

/-- The numeral that a text spells. Blanks, separators between digits and a missing digit are
refused. -/
def read? (s : String) : Option Numeral :=
  let (negative, t) := match s.toList with
    | '-' :: t => (true, t)
    | '+' :: t => (false, t)
    | t => (false, t)
  ((Decimal.readUnsigned? negative t).map .decimal).orElse fun _ => ofWord? negative t

end Numeral

end Montage
