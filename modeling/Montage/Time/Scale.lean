import Montage.Decimal.Literal

/-!
# Time scales

Seconds are numbers of a time scale: the arithmetic, order and rounding that planning needs, and how
a decimal numeral is placed on the scale. Plans run on the binary scale of the machine
(`Time/Binary`); the exact scale of the rationals (`Time/Exact`) is the one to reason with.
-/

namespace Montage

/-- A type of numbers that measure seconds. -/
class TimeScale (T : Type) extends Add T, Sub T, Mul T, Div T, LT T, LE T, BEq T where
  decideLT : DecidableLT T
  decideLE : DecidableLE T
  ofNat : Nat → T
  ofInt : Int → T
  ofDecimal : Decimal → T
  /-- Number of a JSON document, unless it lies outside the scale. -/
  ofLiteral? : Literal → Option T
  /-- Number of a text field. Some scales have no infinity and no undefined number. -/
  ofNumeral? : Numeral → Option T
  isFinite : T → Bool
  /-- Nearest whole number, halves away from zero. -/
  round : T → T
  ceil : T → T
  floor : T → T
  abs : T → T
  /-- Whole part as a word of 64 bits: zero below zero, the greatest word above all words. -/
  toWord : T → Nat
  /-- Ascending order on all numbers, the undefined one included. -/
  ascending : T → T → Bool

namespace TimeScale
variable {T : Type} [TimeScale T]

instance decidableLT : DecidableLT T := decideLT
instance decidableLE : DecidableLE T := decideLE

def zero : T := ofNat 0

instance : Inhabited T := ⟨zero⟩

/-- The later of two times; of a time and the undefined number, the time. -/
def later (a b : T) : T := if a ≤ a then if a < b then b else a else b

/-- The earlier of two times; of a time and the undefined number, the time. -/
def earlier (a b : T) : T := if a ≤ a then if b < a then b else a else b

/-- Moved into the window from `low` to `high`. -/
def clamp (low high a : T) : T :=
  let a := if a < low then low else a
  if high < a then high else a

/-- Greatest natural number of 64 bits. -/
def wordMax : Nat := Nat.pow 2 64 - 1

end TimeScale

end Montage
