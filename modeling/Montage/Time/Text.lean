import Montage.Time.Binary
import Montage.Decimal.Layout

/-!
# Times as text

How the numbers of a time scale are written: plainly in messages and command lines, in diagnostics,
in JSON documents, and with a fixed number of places.
-/

namespace Montage

/-- A time scale whose numbers can be written down. -/
class Spelled (T : Type) where
  /-- Positional, without a point in whole numbers. -/
  plain : T → String
  /-- As in a diagnostic, with a point in whole numbers. -/
  diagnostic : T → String
  /-- As a number of a JSON document. -/
  json : T → String
  /-- With this many places, a half going to the even neighbour. -/
  fixed : Nat → T → String

namespace Binary

/-- The reals that round to a positive number: half way to its neighbours, ends included for an even
significand. -/
def Parts.interval (p : Parts) : Decimal.Interval where
  low := 4 * p.significand - (if p.atPower then 1 else 2)
  value := 4 * p.significand
  high := 4 * p.significand + 2
  exponent := p.exponent - 2
  closed := p.significand % 2 = 0

/-- Text of a number whose magnitude `write` writes. -/
def spell (write : Parts → List Char) (x : Float) : String :=
  if x.isNaN then "NaN"
  else if x.isInf then if x < 0 then "-inf" else "inf"
  else
    let p := parts x
    String.ofList (if p.negative then '-' :: write p else write p)

/-- Shortest digits under a layout. -/
def layOut (l : Decimal.Layout) : Float → String :=
  spell fun p =>
    if p.significand = 0 then l.zero
    else
      let (c, e) := p.interval.shortest l.tie
      l.write c e

def fixed (places : Nat) : Float → String :=
  spell fun p =>
    Decimal.fixedPoint places <|
      Decimal.roundHalfEven (p.significand * Nat.pow 2 p.exponent.toNat * Nat.pow 10 places)
        (Nat.pow 2 (-p.exponent).toNat)

end Binary

instance : Spelled Float where
  plain := Binary.layOut .plain
  diagnostic := Binary.layOut .diagnostic
  json := Binary.layOut .json
  fixed := Binary.fixed

end Montage
