import Mathlib.Data.List.Forall2
import Mathlib.Tactic.SplitIfs

/-!
# Lists that derive from others

A list derives from another if it consists of items of the other in their order, each at most once
and each changed in a certain way, and the items that are missing are of a certain sort. Stages that
map, filter or join lists derive what they return from what they are given, and such steps compose.
-/

namespace Montage

/-- The items of one list become those of another in their order: each is kept as one of them, or
is lost. -/
inductive Derives {α β : Type} (kept : α → β → Prop) (lost : α → Prop) : List α → List β → Prop
  | nil : Derives kept lost [] []
  | keep {x : α} {y : β} {xs : List α} {ys : List β} (h : kept x y)
      (rest : Derives kept lost xs ys) : Derives kept lost (x :: xs) (y :: ys)
  | lose {x : α} {xs : List α} {ys : List β} (h : lost x) (rest : Derives kept lost xs ys) :
      Derives kept lost (x :: xs) ys

namespace Derives
variable {α β γ : Type} {kept : α → β → Prop} {lost : α → Prop} {xs : List α} {ys : List β}

theorem of_forall₂ (h : List.Forall₂ kept xs ys) : Derives kept lost xs ys := by
  induction h with
  | nil => exact .nil
  | cons h _ ih => exact .keep h ih

theorem map (f : α → β) (xs : List α) :
    Derives (fun x y => y = f x) (fun _ => False) xs (xs.map f) := by
  apply of_forall₂
  simp [List.forall₂_map_right_iff, List.forall₂_same]

theorem filter (keep : α → Bool) (xs : List α) :
    Derives (fun x y => y = x) (fun x => keep x = false) xs (xs.filter keep) := by
  induction xs with
  | nil => exact .nil
  | cons x xs ih =>
    rw [List.filter_cons]
    split_ifs with hkeep
    · exact .keep rfl ih
    · exact .lose (Bool.eq_false_iff.mpr hkeep) ih

theorem append {xs' : List α} {ys' : List β} (h : Derives kept lost xs ys)
    (h' : Derives kept lost xs' ys') : Derives kept lost (xs ++ xs') (ys ++ ys') := by
  induction h with
  | nil => exact h'
  | keep h _ ih => exact .keep h ih
  | lose h _ ih => exact .lose h ih

theorem imp {kept' : α → β → Prop} {lost' : α → Prop} (h : Derives kept lost xs ys)
    (hkept : ∀ x ∈ xs, ∀ y ∈ ys, kept x y → kept' x y) (hlost : ∀ x ∈ xs, lost x → lost' x) :
    Derives kept' lost' xs ys := by
  induction h with
  | nil => exact .nil
  | @keep x y xs ys h _ ih =>
    refine .keep (hkept x List.mem_cons_self y List.mem_cons_self h) (ih ?_ ?_)
    · exact fun u hu v hv => hkept u (List.mem_cons_of_mem x hu) v (List.mem_cons_of_mem y hv)
    · exact fun u hu => hlost u (List.mem_cons_of_mem x hu)
  | @lose x xs ys h _ ih =>
    refine .lose (hlost x List.mem_cons_self h) (ih ?_ ?_)
    · exact fun u hu => hkept u (List.mem_cons_of_mem x hu)
    · exact fun u hu => hlost u (List.mem_cons_of_mem x hu)

/-- An item is lost at once, or is kept and lost then. -/
theorem trans {kept' : β → γ → Prop} {lost' : β → Prop} {zs : List γ}
    (h : Derives kept lost xs ys) (h' : Derives kept' lost' ys zs) :
    Derives (fun x z => ∃ y, kept x y ∧ kept' y z) (fun x => lost x ∨ ∃ y, kept x y ∧ lost' y)
      xs zs := by
  induction h generalizing zs with
  | nil =>
    cases h'
    exact .nil
  | keep h _ ih =>
    cases h' with
    | keep h' rest => exact .keep ⟨_, h, h'⟩ (ih rest)
    | lose h' rest => exact .lose (Or.inr ⟨_, h, h'⟩) (ih rest)
  | lose h _ ih => exact .lose (Or.inl h) (ih h')

theorem map_left_iff {f : γ → α} {zs : List γ} : Derives kept lost (zs.map f) ys ↔
    Derives (fun z y => kept (f z) y) (fun z => lost (f z)) zs ys := by
  constructor
  · intro h
    generalize hxs : zs.map f = xs at h
    induction h generalizing zs with
    | nil => exact List.map_eq_nil_iff.mp hxs ▸ .nil
    | keep h _ ih =>
      obtain ⟨z, zs, rfl, rfl, hrest⟩ := List.map_eq_cons_iff.mp hxs
      exact .keep h (ih hrest)
    | lose h _ ih =>
      obtain ⟨z, zs, rfl, rfl, hrest⟩ := List.map_eq_cons_iff.mp hxs
      exact .lose h (ih hrest)
  · intro h
    induction h with
    | nil => exact .nil
    | keep h _ ih => exact .keep h ih
    | lose h _ ih => exact .lose h ih

theorem of_map {f : β → α} (h : ∀ y ∈ ys, kept (f y) y) : Derives kept lost (ys.map f) ys :=
  map_left_iff.mpr (of_forall₂ (List.forall₂_same.mpr h))

theorem of_map_right {f : γ → β} {zs : List γ} (h : Derives kept lost xs (zs.map f)) :
    Derives (fun x z => kept x (f z)) lost xs zs := by
  generalize hys : zs.map f = ys at h
  induction h generalizing zs with
  | nil => exact List.map_eq_nil_iff.mp hys ▸ .nil
  | keep h _ ih =>
    obtain ⟨z, zs, rfl, rfl, hrest⟩ := List.map_eq_cons_iff.mp hys
    exact .keep h (ih hrest)
  | lose h _ ih => exact .lose h (ih hys)

theorem zipIdx (h : Derives kept lost xs ys) :
    Derives (fun x m => kept x m.1) lost xs ys.zipIdx := by
  rw [← List.zipIdx_map_fst 0 ys] at h
  exact h.of_map_right

theorem exists_of_mem (h : Derives kept lost xs ys) {y : β} (hy : y ∈ ys) :
    ∃ x ∈ xs, kept x y := by
  induction h with
  | nil => exact absurd hy List.not_mem_nil
  | @keep x z xs ys h _ ih =>
    obtain rfl | hrest := List.mem_cons.mp hy
    · exact ⟨x, List.mem_cons_self, h⟩
    · obtain ⟨u, hu, hkept⟩ := ih hrest
      exact ⟨u, List.mem_cons_of_mem x hu, hkept⟩
  | @lose x xs ys _ _ ih =>
    obtain ⟨u, hu, hkept⟩ := ih hy
    exact ⟨u, List.mem_cons_of_mem x hu, hkept⟩

end Derives

end Montage
