/-!
# Shortest decimal digits

A binary number stands for every real that rounds to it. Of the decimals among those reals, the text
of the number takes one with the fewest digits, and of these the nearest to the number.

A binary number is given by four natural numbers: its own value and the ends of its interval, as
multiples of one unit, with that unit written as a power of two.
-/

namespace Montage.Decimal

/-- Which of two decimals stands for a number that is half way between them. -/
inductive Tie where
  | up
  /-- The one with an even last digit. -/
  | even
  deriving DecidableEq, Repr

/-- A positive number and the reals that round to it, each as a multiple of `2 ^ exponent`. The ends
belong to the interval when `closed` holds. -/
structure Interval where
  low : Nat
  value : Nat
  high : Nat
  exponent : Int
  closed : Bool

namespace Interval

/-- Factors that make `k · 2 ^ exponent` and `c · 10 ^ e` comparable: the first times `k` against
the second times `c`. -/
def scales (binary e : Int) : Nat × Nat :=
  (Nat.pow 2 binary.toNat * Nat.pow 10 (-e).toNat, Nat.pow 2 (-binary).toNat * Nat.pow 10 e.toNat)

/-- On the grid of multiples of `10 ^ e`, the multiple inside the interval that is nearest to the
value. -/
def onGrid? (i : Interval) (tie : Tie) (e : Int) : Option Nat :=
  let (k, unit) := scales i.exponent e
  let value := i.value * k
  let c := value / unit
  let inside (n : Nat) : Bool :=
    if i.closed then i.low * k ≤ n * unit && n * unit ≤ i.high * k
    else i.low * k < n * unit && n * unit < i.high * k
  let below := 0 < c && inside c
  let above := inside (c + 1)
  if below && above then
    let down := value - c * unit
    let up := (c + 1) * unit - value
    some (if down < up || (down = up && tie = .even && c % 2 = 0) then c else c + 1)
  else if below then some c
  else if above then some (c + 1)
  else none

/-- The first of `n` grids, from coarse to fine, that meets the interval. -/
def search (i : Interval) (tie : Tie) : Nat → Int → Nat × Int
  | 0, e => (i.value * (scales i.exponent e).1 / (scales i.exponent e).2, e)
  | n + 1, e =>
    match i.onGrid? tie e with
    | some c => (c, e)
    | none => i.search tie n (e - 1)

/-- An exponent whose power of ten is above the value, and above it by less than two places. -/
def coarsest (i : Interval) : Int :=
  ((i.value.log2 : Int) + i.exponent) * 30103 / 100000 + 2

/-- Digits and exponent of the shortest decimal of the interval. Twenty places below the leading one
are finer than the interval of any number of 53 bits. -/
def shortest (i : Interval) (tie : Tie) : Nat × Int := i.search tie 24 i.coarsest

end Interval

/-- `numerator / denominator` rounded to a natural number, a half going to the even neighbour. -/
def roundHalfEven (numerator denominator : Nat) : Nat :=
  let q := numerator / denominator
  let r := numerator % denominator
  if denominator < 2 * r then q + 1
  else if 2 * r = denominator && q % 2 = 1 then q + 1
  else q

theorem roundHalfEven_of_dvd {n d : Nat} (hd : 0 < d) (h : d ∣ n) : roundHalfEven n d = n / d := by
  have hr : n % d = 0 := Nat.mod_eq_zero_of_dvd h
  unfold roundHalfEven
  simp only [hr, Nat.mul_zero, Nat.not_lt_zero, if_false]
  rw [if_neg]
  simp [Nat.ne_of_lt hd]

end Montage.Decimal
