import Mathlib.Algebra.Order.Ring.Rat
import Mathlib.Tactic.Ring
import Montage.Time.Exact

/-!
# The extended scale

The rationals together with what else a number field can spell: two infinities and an undefined
number. Arithmetic does not round. An infinity absorbs what is added to it, and where the terms do
not decide on a result, such as those of `∞ - ∞`, there is none. Numbers are compared as on the
binary scale, with nothing below, above or equal to the undefined one.
-/

namespace Montage
open TimeScale

inductive Extended where
  | exact (q : Rat)
  | infinite (negative : Bool)
  | undefined
  deriving DecidableEq, Repr

namespace Extended

/-- `f` on the rationals; the other numbers as they are. -/
def map (f : Rat → Rat) : Extended → Extended
  | exact q => exact (f q)
  | x => x

def neg : Extended → Extended
  | exact q => exact (-q)
  | infinite negative => infinite (!negative)
  | undefined => undefined

def add : Extended → Extended → Extended
  | undefined, _ | _, undefined => undefined
  | exact p, exact q => exact (p + q)
  | exact _, infinite negative | infinite negative, exact _ => infinite negative
  | infinite a, infinite b => if a = b then infinite a else undefined

def mul : Extended → Extended → Extended
  | undefined, _ | _, undefined => undefined
  | exact p, exact q => exact (p * q)
  | exact q, infinite negative | infinite negative, exact q =>
    if q = 0 then undefined else infinite (negative != decide (q < 0))
  | infinite a, infinite b => infinite (a != b)

/-- Zero has no sign: what is divided by it goes to the infinity on its own side. -/
def div : Extended → Extended → Extended
  | undefined, _ | _, undefined => undefined
  | exact p, exact q =>
    if q ≠ 0 then exact (p / q) else if p = 0 then undefined else infinite (decide (p < 0))
  | exact _, infinite _ => exact 0
  | infinite negative, exact q => infinite (negative != decide (q < 0))
  | infinite _, infinite _ => undefined

def lt : Extended → Extended → Bool
  | undefined, _ | _, undefined => false
  | exact p, exact q => p < q
  | exact _, infinite negative => !negative
  | infinite negative, exact _ => negative
  | infinite a, infinite b => a && !b

def eq : Extended → Extended → Bool
  | undefined, _ => false
  | x, y => x = y

def isExact : Extended → Bool
  | exact _ => true
  | _ => false

end Extended

open Extended in
instance : TimeScale Extended where
  add := add
  sub x y := add x (neg y)
  mul := mul
  div := div
  lt x y := lt x y = true
  le x y := (lt x y || eq x y) = true
  beq := eq
  decideLT x y := inferInstanceAs (Decidable (lt x y = true))
  decideLE x y := inferInstanceAs (Decidable ((lt x y || eq x y) = true))
  ofNat n := exact n
  ofInt i := exact i
  ofDecimal d := exact (ofDecimal d)
  ofLiteral? n := (ofLiteral? n).map exact
  ofNumeral?
    | .decimal d => some (exact (ofDecimal d))
    | .infinity negative => some (infinite negative)
    | .undefined _ => some undefined
  isFinite := isExact
  round := map round
  ceil := map ceil
  floor := map floor
  abs
    | exact q => exact (TimeScale.abs q)
    | infinite _ => infinite false
    | undefined => undefined
  toWord
    | exact q => toWord q
    | infinite negative => if negative then 0 else wordMax
    | undefined => 0
  ascending
    | _, undefined => true
    | x, y => lt x y || eq x y

namespace Extended

@[simp] theorem exact_add_exact (p q : Rat) : exact p + exact q = exact (p + q) := rfl

@[simp] theorem exact_mul_exact (p q : Rat) : exact p * exact q = exact (p * q) := rfl

@[simp] theorem ofNat_eq (n : Nat) : (ofNat n : Extended) = exact n := rfl

theorem zero_eq : (zero : Extended) = exact 0 := rfl

theorem exact_lt_exact {p q : Rat} : exact p < exact q ↔ p < q := decide_eq_true_iff

theorem exact_le_exact {p q : Rat} : exact p ≤ exact q ↔ p ≤ q := by
  change (lt (exact p) (exact q) || eq (exact p) (exact q)) = true ↔ p ≤ q
  simp [lt, eq, le_iff_lt_or_eq]

/-- Zero adds nothing, to whatever it is added. -/
theorem zero_mul_add (n : Nat) (x : Extended) : zero * ofNat n + x = x := by
  cases x with
  | exact q => simp [zero_eq]
  | infinite negative => rfl
  | undefined => rfl

theorem infinite_mul_ofNat (negative : Bool) {n : Nat} (h : 0 < n) :
    infinite negative * ofNat n = infinite negative := by
  change (if (n : Rat) = 0 then undefined else infinite (negative != decide ((n : Rat) < 0))) = _
  have hpos : (0 : Rat) < n := by exact_mod_cast h
  rw [if_neg hpos.ne', decide_eq_false (not_lt.mpr hpos.le), Bool.bne_false]

theorem add_mul_ofNat (x y : Extended) {n : Nat} (h : 0 < n) :
    (x + y) * ofNat n = x * ofNat n + y * ofNat n := by
  cases x with
  | undefined => rfl
  | exact p =>
    cases y with
    | undefined => rfl
    | exact q => simp [add_mul]
    | infinite b =>
      rw [infinite_mul_ofNat b h]
      exact infinite_mul_ofNat b h
  | infinite a =>
    cases y with
    | undefined =>
      rw [infinite_mul_ofNat a h]
      rfl
    | exact q =>
      rw [infinite_mul_ofNat a h]
      exact infinite_mul_ofNat a h
    | infinite b =>
      rw [infinite_mul_ofNat a h, infinite_mul_ofNat b h]
      cases a <;> cases b <;> first | rfl | exact infinite_mul_ofNat _ h

theorem mul_ofNat_mul_ofNat (x : Extended) {m n : Nat} (hm : 0 < m) (hn : 0 < n) :
    x * ofNat m * ofNat n = x * ofNat (m * n) := by
  cases x with
  | undefined => rfl
  | exact q => simp [mul_assoc]
  | infinite negative =>
    rw [infinite_mul_ofNat negative hm, infinite_mul_ofNat negative hn,
      infinite_mul_ofNat negative (Nat.mul_pos hm hn)]

end Extended

end Montage
