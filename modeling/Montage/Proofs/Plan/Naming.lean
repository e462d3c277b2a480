import Mathlib.Data.List.Dedup
import Mathlib.Data.List.Perm.Subperm
import Mathlib.Tactic.SplitIfs
import Montage.Plan.Naming
import Montage.Proofs.Plan.Issue

/-!
# Every fetch has a name

The first stage of the repair leaves no fetch without a name, and a plan of which that is true
already as it is. A name that it gives is one that no task had.
-/

namespace Montage

namespace Plan
variable {T : Type}

/-- The output of each fetch has a name. -/
def Named (ts : Plan T) : Prop := ∀ t ∈ ts, t.isFetch = true → t.output.isSome = true

theorem named_cons {t : Task T} {ts : Plan T} :
    Named (t :: ts) ↔ (t.isFetch = true → t.output.isSome = true) ∧ Named ts :=
  List.forall_mem_cons

theorem nameFrom_of_named (used : List String) (n i : Nat) {ts : Plan T} (h : Named ts) :
    nameFrom used n i ts = .clean ts := by
  induction ts generalizing i with
  | nil => rfl
  | cons t rest ih =>
    obtain ⟨hname, hrest⟩ := named_cons.mp h
    have ht : ¬ (t.isFetch && t.output.isNone) = true := by
      intro hfetch
      obtain ⟨hfetch, hnone⟩ := Bool.and_eq_true_iff.mp hfetch
      have hsome := hname hfetch
      rw [Option.isNone_iff_eq_none.mp hnone] at hsome
      exact absurd hsome Bool.false_ne_true
    simp only [nameFrom, if_neg ht, ih (i + 1) hrest]
    rfl

theorem named_nameFrom (used : List String) (n i : Nat) (ts : Plan T) :
    Named (nameFrom used n i ts).plan := by
  induction ts generalizing used n i with
  | nil => exact List.forall_mem_nil _
  | cons t rest ih =>
    simp only [nameFrom]
    split_ifs with hname
    · exact named_cons.mpr ⟨fun _ => Option.isSome_some, ih _ _ _⟩
    · refine named_cons.mpr ⟨?_, ih used n (i + 1)⟩
      intro hfetch
      rw [hfetch, Bool.true_and, Option.isNone_iff_eq_none] at hname
      exact Option.isSome_iff_ne_none.mpr hname

theorem nameFetches_of_named {ts : Plan T} (h : Named ts) : nameFetches ts = .clean ts :=
  nameFrom_of_named ts.declaredNames 0 0 h

theorem named_nameFetches (ts : Plan T) : Named (nameFetches ts).plan :=
  named_nameFrom ts.declaredNames 0 0 ts

/-- Names are all that is corrected. -/
theorem corrections_nameFrom (used : List String) (n i : Nat) (ts : Plan T) :
    ∀ c ∈ (nameFrom used n i ts).corrections, ∃ i name, c = .assignedOutput i name := by
  induction ts generalizing used n i with
  | nil => exact List.forall_mem_nil _
  | cons t rest ih =>
    simp only [nameFrom]
    split_ifs
    · exact List.forall_mem_cons.mpr ⟨⟨i, _, rfl⟩, ih _ _ _⟩
    · exact ih _ _ _

/-! ## New names -/

theorem stockName_injective : Function.Injective stockName := by
  intro m n h
  have hdigits : Nat.toDigits 10 m = Nat.toDigits 10 n :=
    String.ofList_injective ((String.append_right_inj "stock_").mp h)
  rw [← Nat.ofDigitChars_ten_toDigits (n := m), hdigits, Nat.ofDigitChars_ten_toDigits]

/-- The least number above `n` whose name is not used. -/
structure IsNext (used : List String) (n m : Nat) : Prop where
  above : n < m
  free : stockName m ∉ used
  least : ∀ i, n < i → i < m → stockName i ∈ used

/-- Different numbers have different names, so no more names are taken than are used. -/
theorem le_of_taken {used : List String} {n k : Nat}
    (h : ∀ i, n < i → i ≤ n + k → stockName i ∈ used) : k ≤ used.dedup.length := by
  have hsubset : ((List.range' (n + 1) k).map stockName) ⊆ used.dedup := by
    intro name hname
    obtain ⟨i, hi, rfl⟩ := List.mem_map.mp hname
    rw [List.mem_range'_1] at hi
    exact List.mem_dedup.mpr (h i (by omega) (by omega))
  have hnodup := (List.nodup_range' (s := n + 1) (n := k)).map stockName_injective
  have hlength := (hnodup.subperm hsubset).length_le
  rwa [List.length_map, List.length_range'] at hlength

/-- Of more numbers than there are used names, one is free. -/
theorem isNext_nextNumber (used : List String) (n : Nat) :
    IsNext used n (nextNumber used n) := by
  unfold nextNumber
  cases hfind : (List.range' (n + 1) (used.length + 1)).find?
      fun i => !used.contains (stockName i) with
  | some m =>
    obtain ⟨hfree, hmem, hleast⟩ := List.find?_range'_eq_some.mp hfind
    rw [List.mem_range'_1] at hmem
    exact ⟨hmem.1, by simpa using hfree, fun i hi him => by simpa using hleast i hi him⟩
  | none =>
    exfalso
    have htaken : used.length + 1 ≤ used.dedup.length := by
      apply le_of_taken (n := n)
      intro i hlow hhigh
      have hmem : i ∈ List.range' (n + 1) (used.length + 1) := by
        rw [List.mem_range'_1]
        omega
      simpa using List.find?_eq_none.mp hfind i hmem
    have hdedup := (List.dedup_sublist used).length_le
    omega

theorem stockName_nextNumber (used : List String) (n : Nat) :
    stockName (nextNumber used n) ∉ used :=
  (isNext_nextNumber used n).free

theorem names_subset_declaredNames (ts : Plan T) : names ts ⊆ ts.declaredNames :=
  List.subset_append_left _ _

theorem mem_declaredNames {ts : Plan T} {name : String} :
    name ∈ ts.declaredNames ↔ name ∈ names ts ∨ name = sourceName := by
  rw [declaredNames, List.mem_append, List.mem_singleton, names]

theorem mem_names_nameFrom {used : List String} {n i : Nat} {ts : Plan T} {name : String}
    (h : name ∈ names (nameFrom used n i ts).plan) : name ∈ names ts ∨ name ∉ used := by
  induction ts generalizing used n i with
  | nil => exact absurd h List.not_mem_nil
  | cons t rest ih =>
    simp only [nameFrom] at h
    rw [names_cons t, List.mem_append]
    split_ifs at h
    · obtain hnew | hrest := List.mem_append.mp (names_cons _ _ ▸ h)
      · obtain rfl : name = _ := by simpa using hnew
        exact Or.inr (stockName_nextNumber used n)
      · exact (ih hrest).imp Or.inr (mt (List.mem_cons_of_mem _))
    · obtain hold | hrest := List.mem_append.mp (names_cons _ _ ▸ h)
      · exact Or.inl (Or.inl hold)
      · exact (ih hrest).imp_left Or.inr

theorem names_nameFrom_nodup {used : List String} {ts : Plan T} (n i : Nat)
    (hused : names ts ⊆ used) (h : (names ts).Nodup) :
    (names (nameFrom used n i ts).plan).Nodup := by
  induction ts generalizing used n i with
  | nil => exact List.nodup_nil
  | cons t rest ih =>
    rw [names_cons] at h hused
    obtain ⟨hhead, hrest, hdisjoint⟩ := List.nodup_append.mp h
    have hsub : names rest ⊆ used := fun _ hname => hused (List.mem_append_right _ hname)
    simp only [nameFrom]
    split_ifs
    · have hfresh := stockName_nextNumber used n
      rw [names_cons, Option.toList_some, List.singleton_append, List.nodup_cons]
      refine ⟨fun hmem => ?_, ih _ _ (List.subset_cons_of_subset _ hsub) hrest⟩
      obtain hold | hnew := mem_names_nameFrom hmem
      · exact hfresh (hsub hold)
      · exact hnew List.mem_cons_self
    · rw [names_cons, List.nodup_append]
      refine ⟨hhead, ih n _ hsub hrest, ?_⟩
      rintro name hname given hgiven rfl
      obtain hold | hnew := mem_names_nameFrom hgiven
      · exact hdisjoint name hname name hold rfl
      · exact hnew (hused (List.mem_append_left _ hname))

end Plan

end Montage
