import Mathlib.Data.List.Lex
import Mathlib.Data.Prod.Lex
import Mathlib.Data.String.Basic
import Montage.Files.Path

/-!
# The order of paths

Components are ordered by their kind and then by their characters, and paths as the lists of their
components. So the order of paths is that of lists over a linear order, and no two paths stand in
the same place in it unless they have the same components.
-/

namespace Montage.Path

/-- The place of a component in the order of all of them. -/
def componentKey (s : String) : ℕ ×ₗ String := toLex (componentRank s, s)

theorem componentKey_injective : Function.Injective componentKey := fun _ _ h =>
  congrArg Prod.snd (toLex.injective h)

theorem componentKey_lt {s t : String} : componentKey s < componentKey t ↔
    componentRank s < componentRank t ∨ componentRank s = componentRank t ∧ s < t :=
  Prod.Lex.toLex_lt_toLex

theorem cons_le_cons_iff {α : Type} [LinearOrder α] {a b : α} {l m : List α} :
    a :: l ≤ b :: m ↔ a < b ∨ a = b ∧ l ≤ m := by
  rw [← not_lt, List.cons_lt_cons_iff]
  obtain hlt | rfl | hgt := lt_trichotomy a b
  · simp [hlt, hlt.not_gt, hlt.ne']
  · simp
  · simp [hgt, hgt.not_gt, hgt.ne']

theorem componentsLE_iff (as bs : List String) :
    componentsLE as bs = true ↔ as.map componentKey ≤ bs.map componentKey := by
  fun_induction componentsLE as bs with
  | case1 bs => exact iff_of_true rfl (not_lt.mp (List.not_lt_nil _))
  | case2 a as => exact iff_of_false Bool.false_ne_true (not_le.mpr (List.nil_lt_cons _ _))
  | case3 as b bs ih =>
    simp only [ih, List.map_cons, cons_le_cons_iff, lt_irrefl, true_and, false_or]
  | case4 a as b bs hne hkind =>
    simp [cons_le_cons_iff, componentKey_lt, componentKey_injective.ne hne, hkind]
  | case5 a as b bs hne hkind =>
    simp [cons_le_cons_iff, componentKey_lt, componentKey_injective.ne hne, hkind]

/-- The place of a path in the order of all of them. -/
def key (p : Path) : List (ℕ ×ₗ String) := p.components.map componentKey

theorem le_iff (p q : Path) : p.le q = true ↔ p.key ≤ q.key := componentsLE_iff _ _

theorem key_eq_key {p q : Path} : p.key = q.key ↔ p.components = q.components :=
  (List.map_injective_iff.mpr componentKey_injective).eq_iff

end Montage.Path
