import Montage.Time.Scale

/-!
# The exact scale

Rational numbers as a time scale: no rounding, no infinities.
-/

namespace Montage

namespace Exact

/-- Nearest whole number, halves away from zero. -/
def round (x : Rat) : Int :=
  if x < 0 then -(-x + 1 / 2).floor else (x + 1 / 2).floor

def ofDecimal (d : Decimal) : Rat :=
  let n : Rat := if d.negative then -(d.digits : Rat) else d.digits
  if d.exponent < 0 then n / (10 : Rat) ^ d.exponent.natAbs else n * (10 : Rat) ^ d.exponent.natAbs

end Exact

instance : TimeScale Rat where
  decideLT := inferInstance
  decideLE := inferInstance
  ofNat n := (n : Rat)
  ofInt i := (i : Rat)
  ofDecimal := Exact.ofDecimal
  ofLiteral? n := some (Exact.ofDecimal n.decimal)
  ofNumeral?
    | .decimal d => some (Exact.ofDecimal d)
    | _ => none
  isFinite _ := true
  round x := (Exact.round x : Rat)
  ceil x := (x.ceil : Rat)
  floor x := (x.floor : Rat)
  abs x := if x < 0 then -x else x
  toWord x := min x.floor.toNat TimeScale.wordMax
  ascending a b := a ≤ b

end Montage
