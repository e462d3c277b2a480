import Mathlib.Data.List.Nodup
import Mathlib.Tactic.SplitIfs
import Montage.Time.Binary

/-!
# The order of times

Sorting makes the same list of the same items, in whatever order they come, if no two of them stand
in the same place. On a scale whose ascending order gives each number a place of its own it is
enough that the times differ. The binary scale is one: the place of a number is its rank.
-/

namespace Montage
open TimeScale

/-- The ascending order of the scale gives each number a place of its own. -/
class Ascends (T : Type) [TimeScale T] : Prop where
  trans : ∀ a b c : T, ascending a b = true → ascending b c = true → ascending a c = true
  total : ∀ a b : T, (ascending a b || ascending b a) = true
  antisymm : ∀ a b : T, ascending a b = true → ascending b a = true → a = b

namespace Ascends
variable {α T : Type} [TimeScale T] [Ascends T] (time : α → T)

theorem pairwise_mergeSort (l : List α) :
    (l.mergeSort fun a b => ascending (time a) (time b)).Pairwise
      fun a b => ascending (time a) (time b) = true :=
  List.pairwise_mergeSort (fun a b c => trans (time a) (time b) (time c))
    (fun a b => total (time a) (time b)) l

/-- Items at different times are sorted into one order. -/
theorem mergeSort_eq_of_perm {l l' : List α} (h : l.Perm l') (hdistinct : (l.map time).Nodup) :
    (l.mergeSort fun a b => ascending (time a) (time b)) =
      l'.mergeSort fun a b => ascending (time a) (time b) := by
  have hperm := (List.mergeSort_perm l fun a b => ascending (time a) (time b)).trans
    (h.trans (List.mergeSort_perm l' fun a b => ascending (time a) (time b)).symm)
  refine List.Perm.eq_of_pairwise (fun a b ha hb hab hba => ?_)
    (pairwise_mergeSort time l) (pairwise_mergeSort time l') hperm
  exact List.inj_on_of_nodup_map hdistinct (List.mem_mergeSort.mp ha)
    (h.mem_iff.mpr (List.mem_mergeSort.mp hb)) (antisymm _ _ hab hba)

end Ascends

namespace Binary

/-- Each number has a rank of its own: its bits can be told from it. -/
theorem rank_injective {x y : Float} (h : rank x = rank y) : x = y := by
  have hx := x.toBits.toNat_lt
  have hy := y.toBits.toNat_lt
  have hbits : x.toBits.toNat = y.toBits.toNat := by
    have hhalf : Nat.pow 2 63 = 9223372036854775808 := rfl
    have hall : Nat.pow 2 64 = 18446744073709551616 := rfl
    simp only [rank, hhalf, hall] at h
    split_ifs at h <;> omega
  obtain ⟨⟨bits, hvalid⟩⟩ := x
  obtain ⟨⟨bits', hvalid'⟩⟩ := y
  obtain rfl : bits = bits' := UInt64.toNat_inj.mp hbits
  rfl

theorem ascending_iff (x y : Float) : ascending x y = true ↔ rank x ≤ rank y :=
  decide_eq_true_iff

end Binary

instance : Ascends Float where
  trans x y z h k := by
    rw [Binary.ascending_iff] at h k ⊢
    exact Nat.le_trans h k
  total x y := by
    rw [Bool.or_eq_true, Binary.ascending_iff, Binary.ascending_iff]
    exact Nat.le_total _ _
  antisymm x y h k := by
    rw [Binary.ascending_iff] at h k
    exact Binary.rank_injective (Nat.le_antisymm h k)

end Montage
