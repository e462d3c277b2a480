import Mathlib.Data.EReal.Basic
import Mathlib.Data.Rat.Cast.Order
import Mathlib.Order.Bounds.Basic
import Montage.Proofs.Time.Order
import Montage.Time.Exact

/-!
# Scales on a line

The defined numbers of a time scale stand for instants on a line, with an infinite one at either
end. Numbers are compared as their instants are, and none is before an earlier one where they are
sorted. The undefined number, if there is one, is neither below nor above anything. Main statement:
the earliest and the latest of defined times are the least and the greatest of them.
-/

namespace Montage
open TimeScale

/-- Any number but the undefined one, which is not even equal to itself. -/
def TimeScale.Defined {T : Type} [TimeScale T] (a : T) : Prop := a ≤ a

/-- The defined numbers of the scale are compared and sorted as the instants they stand for. -/
class OnLine (T : Type) [TimeScale T] extends Ascends T where
  instant : T → EReal
  le_iff : ∀ {a b : T}, a ≤ b ↔ Defined a ∧ Defined b ∧ instant a ≤ instant b
  lt_iff : ∀ {a b : T}, a < b ↔ Defined a ∧ Defined b ∧ instant a < instant b
  instant_le : ∀ {a b : T}, Defined a → Defined b → ascending a b = true → instant a ≤ instant b

namespace OnLine
variable {T : Type} [TimeScale T] [OnLine T] {a b c : T}

theorem instant_lt (h : a < b) : instant a < instant b := (lt_iff.mp h).2.2

theorem not_lt_iff (ha : Defined a) (hb : Defined b) : ¬ a < b ↔ b ≤ a := by
  rw [lt_iff, le_iff, ← not_lt]
  tauto

theorem le_of_ascending (ha : Defined a) (hb : Defined b) (h : ascending a b = true) : a ≤ b :=
  le_iff.mpr ⟨ha, hb, instant_le ha hb h⟩

theorem le_trans (hab : a ≤ b) (hbc : b ≤ c) : a ≤ c := by
  rw [le_iff] at *
  exact ⟨hab.1, hbc.2.1, hab.2.2.trans hbc.2.2⟩

theorem le_of_lt (h : a < b) : a ≤ b := by
  rw [lt_iff] at h
  exact le_iff.mpr ⟨h.1, h.2.1, h.2.2.le⟩

/-! ## The earliest and the latest -/

/-- One of two defined times is the earlier of them, and before both. -/
theorem earlier_spec (ha : Defined a) (hb : Defined b) :
    (earlier a b = a ∨ earlier a b = b) ∧ earlier a b ≤ a ∧ earlier a b ≤ b := by
  have hearlier : earlier a b = if b < a then b else a := if_pos ha
  rw [hearlier]
  split_ifs with hlt
  · exact ⟨.inr rfl, le_of_lt hlt, hb⟩
  · exact ⟨.inl rfl, ha, (not_lt_iff hb ha).mp hlt⟩

theorem later_spec (ha : Defined a) (hb : Defined b) :
    (later a b = a ∨ later a b = b) ∧ a ≤ later a b ∧ b ≤ later a b := by
  have hlater : later a b = if a < b then b else a := if_pos ha
  rw [hlater]
  split_ifs with hlt
  · exact ⟨.inr rfl, le_of_lt hlt, hb⟩
  · exact ⟨.inl rfl, ha, (not_lt_iff ha hb).mp hlt⟩

omit [OnLine T] in
/-- Of two times each time one that stands in `r` to both, in the end one that stands in it to
all. -/
theorem foldl_spec {f : T → T → T} {r : T → T → Prop}
    (hf : ∀ {a b : T}, Defined a → Defined b →
      (f a b = a ∨ f a b = b) ∧ r (f a b) a ∧ r (f a b) b)
    (hrefl : ∀ {a : T}, Defined a → r a a) (htrans : ∀ {a b c : T}, r a b → r b c → r a c)
    (xs : List T) {x : T} (h : ∀ y ∈ x :: xs, Defined y) :
    xs.foldl f x ∈ x :: xs ∧ ∀ y ∈ x :: xs, r (xs.foldl f x) y := by
  induction xs generalizing x with
  | nil =>
    refine ⟨List.mem_cons_self, fun y hy => ?_⟩
    obtain rfl := List.mem_singleton.mp hy
    exact hrefl (h y hy)
  | cons z zs ih =>
    obtain ⟨hx, hz, hzs⟩ : Defined x ∧ Defined z ∧ ∀ y ∈ zs, Defined y := by
      simpa only [List.forall_mem_cons] using h
    obtain ⟨hone, hleft, hright⟩ := hf hx hz
    have hfirst : Defined (f x z) := by
      obtain heq | heq := hone
      · exact heq.symm ▸ hx
      · exact heq.symm ▸ hz
    obtain ⟨hmem, hall⟩ := ih (List.forall_mem_cons.mpr ⟨hfirst, hzs⟩)
    rw [List.foldl_cons]
    constructor
    · obtain heq | hmem := List.mem_cons.mp hmem
      · rw [heq]
        obtain hone | hone := hone <;> simp [hone]
      · exact List.mem_cons_of_mem x (List.mem_cons_of_mem z hmem)
    · have hbelow := hall (f x z) List.mem_cons_self
      simp only [List.forall_mem_cons]
      exact ⟨htrans hbelow hleft, htrans hbelow hright, fun y hy =>
        hall y (List.mem_cons_of_mem _ hy)⟩

theorem isLeast_foldl_earlier {xs : List T} {x : T} (h : ∀ y ∈ x :: xs, Defined y) :
    IsLeast {y | y ∈ x :: xs} (xs.foldl earlier x) :=
  foldl_spec earlier_spec id le_trans xs h

theorem isGreatest_foldl_later {xs : List T} {x : T} (h : ∀ y ∈ x :: xs, Defined y) :
    IsGreatest {y | y ∈ x :: xs} (xs.foldl later x) :=
  foldl_spec (r := fun a b => b ≤ a) later_spec id (fun hab hbc => le_trans hbc hab) xs h

end OnLine

/-! ## The exact scale -/

theorem Exact.defined (a : Rat) : Defined a := le_rfl

instance : OnLine Rat where
  trans a b c h k := decide_eq_true ((of_decide_eq_true h).trans (of_decide_eq_true k))
  total a b := by
    rw [Bool.or_eq_true]
    exact (le_total a b).imp decide_eq_true decide_eq_true
  antisymm a b h k := le_antisymm (of_decide_eq_true h) (of_decide_eq_true k)
  instant a := ((a : Real) : EReal)
  le_iff {a b} := by
    rw [EReal.coe_le_coe_iff, Rat.cast_le]
    exact ⟨fun h => ⟨le_rfl, le_rfl, h⟩, fun h => h.2.2⟩
  lt_iff {a b} := by
    rw [EReal.coe_lt_coe_iff, Rat.cast_lt]
    exact ⟨fun h => ⟨le_rfl, le_rfl, h⟩, fun h => h.2.2⟩
  instant_le {a b} _ _ h := by
    rw [EReal.coe_le_coe_iff, Rat.cast_le]
    exact of_decide_eq_true h

namespace Exact

theorem instant_le_instant {a b : Rat} : OnLine.instant a ≤ OnLine.instant b ↔ a ≤ b :=
  EReal.coe_le_coe_iff.trans Rat.cast_le

theorem instant_lt_instant {a b : Rat} : OnLine.instant a < OnLine.instant b ↔ a < b :=
  EReal.coe_lt_coe_iff.trans Rat.cast_lt

end Exact

end Montage
