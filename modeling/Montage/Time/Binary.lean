import Montage.Time.Scale

/-!
# The binary scale

Binary numbers of 64 bits as a time scale.
-/

namespace Montage

namespace Binary

/-- Sign, significand and exponent: the number is `± significand · 2 ^ exponent`. -/
structure Parts where
  negative : Bool
  significand : Nat
  exponent : Int
  /-- The next number below is only half as far away as the next above. -/
  atPower : Bool

def parts (x : Float) : Parts :=
  let bits := x.toBits.toNat
  let fraction := bits % Nat.pow 2 52
  let e : Nat := bits / Nat.pow 2 52 % Nat.pow 2 11
  let negative := bits / Nat.pow 2 63 == 1
  if e = 0 then ⟨negative, fraction, -1074, false⟩
  else ⟨negative, Nat.pow 2 52 + fraction, (e : Int) - 1075, fraction == 0 && 1 < e⟩

/-- Nearest whole number, halves away from zero. A number with an exponent that is not negative is
whole already, infinite or undefined. -/
def round (x : Float) : Float :=
  let p := parts x
  if p.exponent < 0 then
    let unit := Nat.pow 2 p.exponent.natAbs
    let y := Float.ofNat ((2 * p.significand + unit) / (2 * unit))
    if p.negative then -y else y
  else x

/-- Position in the ascending order of all numbers. -/
def rank (x : Float) : Nat :=
  let bits := x.toBits.toNat
  if bits < Nat.pow 2 63 then Nat.pow 2 63 + bits else Nat.pow 2 64 - 1 - bits

def infinity (negative : Bool) : Float := if negative then -1.0 / 0.0 else 1.0 / 0.0

/-- The nearest number to a decimal. Beyond `10 ^ 400` on either side every decimal is read as
infinite or as zero, which keeps the powers of ten small. -/
def ofDecimal (d : Decimal) : Float :=
  let size := d.exponent + ((d.digits.log2 + 1) * 30103 / 100000 : Nat)
  let x :=
    if d.digits = 0 || size < -400 then 0.0
    else if 400 < size then infinity false
    else if d.exponent < 0 then Float.ofScientific d.digits true d.exponent.natAbs
    else Float.ofScientific d.digits false d.exponent.natAbs
  if d.negative then -x else x

/-- Powers of ten up to the greatest on the scale. -/
def power (n : Nat) : Float := Float.ofScientific 1 false n

/-- Digits appended to a word as long as it stays within 64 bits, and the digits that are left. -/
def gather (word : Nat) : List Char → Nat × List Char
  | [] => (word, [])
  | c :: s =>
    let next := Decimal.readDigits word [c]
    if next ≤ TimeScale.wordMax then gather next s else (word, c :: s)

/-- `x` divided by `10 ^ n`, in divisions by at most `10 ^ 308`. -/
def shrink (x : Float) (n : Nat) : Float :=
  if n ≤ 308 then x / power n
  else if x == 0.0 then x
  else if 2000 < n then 0.0
  else shrink (x / power 308) (n - 308)
termination_by n

/-- A number of a document is a word of 64 bits scaled by one power of ten, which can miss the
nearest number by a step. The word takes the digits in front of the point and then those behind it,
on each side up to the first that has no room; a digit left over in front counts one more power of
ten, one behind counts nothing. -/
def ofLiteral? (n : Literal) : Option Float :=
  let (front, left) := gather 0 n.whole
  let (word, ignored) := gather front (n.fraction.getD [])
  let e := n.power.getD 0 + left.length + ignored.length - n.places
  let x := Float.ofNat word
  let scaled :=
    if e < 0 then shrink x e.natAbs
    else if word = 0 then x
    else if 308 < e then infinity false
    else x * power e.natAbs
  if scaled.isFinite then some (if n.negative then -scaled else scaled) else none

end Binary

instance : TimeScale Float where
  decideLT := inferInstance
  decideLE := inferInstance
  ofNat := Float.ofNat
  ofInt := Float.ofInt
  ofDecimal := Binary.ofDecimal
  ofLiteral? := Binary.ofLiteral?
  ofNumeral?
    | .decimal d => some (Binary.ofDecimal d)
    | .infinity negative => some (Binary.infinity negative)
    | .undefined _ => some (0.0 / 0.0)
  isFinite := Float.isFinite
  round := Binary.round
  ceil := Float.ceil
  floor := Float.floor
  abs := Float.abs
  toWord x := x.toUInt64.toNat
  ascending a b := Binary.rank a ≤ Binary.rank b

end Montage
