import Mathlib.Data.List.Nodup
import Mathlib.Tactic.SplitIfs
import Montage.Json.Basic

/-!
# Members of objects

What a member that is put into an object does to the others. Putting the same value once more
changes nothing, and goes on changing nothing while other members are put in; of an object whose
keys ascend this is true of every value that it holds. The members of a list with different keys can
be looked up in the object that is made of it.
-/

namespace Montage

namespace Json
variable {T : Type}

theorem text_ne_null (s : String) : (text s : Json T) ≠ .null := by
  intro h
  cases h

theorem object_ne_null (ms : Members T) : object ms ≠ .null := by
  intro h
  cases h

end Json

namespace Members
variable {T : Type}

theorem lt_of_not_lt {a b : String} (hne : a ≠ b) (h : ¬ a < b) : b < a := by
  by_contra hba
  exact hne (String.le_antisymm (String.not_lt.mp hba) (String.not_lt.mp h))

theorem get?_put_of_ne {key other : String} (h : other ≠ key) (v : Json T) (ms : Members T) :
    (ms.put key v).get? other = ms.get? other := by
  have hne : (other == key) = false := by simpa using h
  fun_induction put key v ms with
  | case1 => simp [get?, List.lookup_cons, hne]
  | case2 w ms => simp [get?, List.lookup_cons, hne]
  | case3 k w ms => simp [get?, List.lookup_cons, hne]
  | case4 k w ms _ _ ih =>
    simp only [get?, List.lookup_cons] at ih ⊢
    split
    · rfl
    · exact ih

theorem lookup_eq_none {ms : List (String × Json T)} {key : String} (h : ∀ m ∈ ms, m.1 ≠ key) :
    ms.lookup key = none := by
  rw [List.lookup_eq_none_iff]
  intro m hm
  simpa using (h m hm).symm

theorem firstOf?_of_get? {ms : Members T} {key : String} {j : Json T} (h : ms.get? key = some j)
    (hnull : j ≠ .null) (keys : List String) : ms.firstOf? (key :: keys) = some j := by
  cases j with
  | null => exact absurd rfl hnull
  | _ => simp only [firstOf?, List.findSome?_cons, h]

theorem exists_of_firstOf? {ms : Members T} {keys : List String} {j : Json T}
    (h : ms.firstOf? keys = some j) : ∃ key ∈ keys, ms.get? key = some j ∧ j ≠ .null := by
  obtain ⟨key, hmem, hkey⟩ := List.exists_of_findSome?_eq_some h
  refine ⟨key, hmem, ?_⟩
  split at hkey
  · cases hkey
  · rename_i hnull
    refine ⟨hkey, ?_⟩
    rintro rfl
    exact hnull hkey

theorem mem_put {key : String} {v : Json T} {ms : Members T} {m : String × Json T}
    (h : m ∈ ms.put key v) : m = (key, v) ∨ m ∈ ms := by
  fun_induction put key v ms with
  | case1 => exact Or.inl (List.mem_singleton.mp h)
  | case2 w ms =>
    exact (List.mem_cons.mp h).imp_right (List.mem_cons_of_mem _)
  | case3 k w ms => exact List.mem_cons.mp h
  | case4 k w ms _ _ ih =>
    obtain rfl | h := List.mem_cons.mp h
    · exact Or.inr List.mem_cons_self
    · exact (ih h).imp_right (List.mem_cons_of_mem _)

/-- Every member is of a kind. -/
def All (P : String × Json T → Prop) (ms : Members T) : Prop := ∀ m ∈ ms, P m

theorem all_append {P : String × Json T → Prop} {ms ms' : Members T} :
    All P (ms ++ ms') ↔ All P ms ∧ All P ms' := List.forall_mem_append

/-! ## Putting the same value again -/

theorem put_put_self (key : String) (v : Json T) (ms : Members T) :
    (ms.put key v).put key v = ms.put key v := by
  fun_induction put key v ms with
  | case1 => simp [put]
  | case2 w ms => simp [put]
  | case3 k w ms => simp [put]
  | case4 k w ms hne hlt ih => rw [put, if_neg hne, if_neg hlt, ih]

/-- What changes nothing goes on changing nothing when another member is put in. -/
theorem put_put_of_put_eq {key other : String} (hne : other ≠ key) {v w : Json T} {ms : Members T}
    (h : ms.put key v = ms) : (ms.put other w).put key v = ms.put other w := by
  induction ms with
  | nil => exact absurd h (List.cons_ne_nil _ _)
  | cons m ms ih =>
    obtain ⟨k, u⟩ := m
    rw [put] at h
    split_ifs at h with hk hlt
    · -- The key stands first.
      subst hk
      have hkey (rest : Members T) : put k v ((k, u) :: rest) = (k, u) :: rest := by
        rw [put, if_pos rfl, (List.cons.inj h).1]
      rw [put, if_neg hne.symm]
      split_ifs with hother
      · rw [put, if_neg hne, if_neg (String.lt_asymm hother), hkey]
      · exact hkey _
    · exact absurd (congrArg List.length h) (by simp)
    · have hrest : Members.put key v ms = ms := (List.cons.inj h).2
      rw [put]
      split_ifs with hsame hother
      · subst hsame
        rw [put, if_neg hk, if_neg hlt, hrest]
      · have hkey : ¬ key < other := fun hkey => hlt (String.lt_trans hkey hother)
        rw [put, if_neg hne, if_neg hkey, put, if_neg hk, if_neg hlt, hrest]
      · rw [put, if_neg hk, if_neg hlt, ih hrest]

/-! ## Ascending keys -/

/-- The keys ascend. -/
def Ascending (ms : Members T) : Prop := ms.Pairwise fun a b => a.1 < b.1

theorem Ascending.put {ms : Members T} (h : Ascending ms) (key : String) (v : Json T) :
    Ascending (ms.put key v) := by
  fun_induction Members.put key v ms with
  | case1 => exact List.pairwise_singleton _ _
  | case2 w ms => exact List.pairwise_cons.mpr (List.pairwise_cons.mp h)
  | case3 k w ms _ hlt =>
    apply List.pairwise_cons.mpr
    refine ⟨fun m hm => ?_, h⟩
    obtain rfl | hm := List.mem_cons.mp hm
    · exact hlt
    · exact String.lt_trans hlt ((List.pairwise_cons.mp h).1 m hm)
  | case4 k w ms hne hlt ih =>
    obtain ⟨hfirst, hrest⟩ := List.pairwise_cons.mp h
    apply List.pairwise_cons.mpr
    refine ⟨fun m hm => ?_, ih hrest⟩
    obtain rfl | hm := mem_put hm
    · exact lt_of_not_lt (Ne.symm hne) hlt
    · exact hfirst m hm

theorem Ascending.put_of_get? {ms : Members T} (h : Ascending ms) {key : String} {v : Json T}
    (hget : ms.get? key = some v) : ms.put key v = ms := by
  fun_induction Members.put key v ms with
  | case1 => cases hget
  | case2 w ms =>
    obtain rfl : w = v := by simpa [get?] using hget
    rfl
  | case3 k w ms hne hlt =>
    exfalso
    have hk : (key == k) = false := by simpa using Ne.symm hne
    rw [get?, List.lookup_cons, hk] at hget
    obtain ⟨front, back, heq, -⟩ := List.lookup_eq_some_iff.mp hget
    have hmem : (key, v) ∈ ms := by simp [heq]
    exact String.lt_asymm hlt ((List.pairwise_cons.mp h).1 (key, v) hmem)
  | case4 k w ms hne hlt ih =>
    have hk : (key == k) = false := by simpa using Ne.symm hne
    rw [get?, List.lookup_cons, hk] at hget
    rw [ih (List.pairwise_cons.mp h).2 hget]

/-- Taking a member out and putting it back in. -/
theorem Ascending.put_remove {ms : Members T} (h : Ascending ms) {key : String} {v : Json T}
    (hget : ms.get? key = some v) : (ms.remove key).put key v = ms := by
  induction ms with
  | nil => cases hget
  | cons m ms ih =>
    obtain ⟨k, w⟩ := m
    obtain ⟨hfirst, hrest⟩ := List.pairwise_cons.mp h
    by_cases hk : k = key
    · subst hk
      obtain rfl : w = v := by simpa [get?] using hget
      have hremove : Members.remove k ((k, w) :: ms) = ms := by
        have hne : ∀ m ∈ ms, decide (m.1 ≠ k) = true := by
          intro m hm
          rw [decide_eq_true_eq]
          rintro rfl
          exact String.lt_irrefl m.1 (hfirst m hm)
        rw [remove, List.filter_cons_of_neg (by simp), List.filter_eq_self.mpr hne]
      rw [hremove]
      cases ms with
      | nil => rfl
      | cons n ms =>
        have hlt : k < n.1 := hfirst n List.mem_cons_self
        have hne : n.1 ≠ k := fun heq => String.lt_irrefl k (heq ▸ hlt)
        rw [Members.put, if_neg hne, if_pos hlt]
    · have hkey : (key == k) = false := by simpa using Ne.symm hk
      rw [get?, List.lookup_cons, hkey] at hget
      obtain ⟨front, back, heq, -⟩ := List.lookup_eq_some_iff.mp hget
      have hlt : k < key := hfirst (key, v) (by simp [heq])
      have hremove : Members.remove key ((k, w) :: ms) = (k, w) :: Members.remove key ms := by
        rw [remove, List.filter_cons_of_pos (by simpa using hk)]
        rfl
      rw [hremove, Members.put, if_neg hk, if_neg (String.lt_asymm hlt), ih hrest hget]

theorem Ascending.nodup {ms : Members T} (h : Ascending ms) : (ms.map Prod.fst).Nodup := by
  apply List.pairwise_map.mpr
  apply h.imp
  intro a b hlt heq
  rw [heq] at hlt
  exact String.lt_irrefl b.1 hlt

/-! ## Objects made of lists -/

theorem ascending_ofList (ms : List (String × Json T)) : Ascending (ofList ms) := by
  have hfold (acc : Members T) (hacc : Ascending acc) :
      Ascending (ms.foldl (fun acc m => acc.put m.1 m.2) acc) := by
    induction ms generalizing acc with
    | nil => exact hacc
    | cons m ms ih => exact ih _ (hacc.put m.1 m.2)
  exact hfold [] List.Pairwise.nil

theorem get?_ofList {ms : List (String × Json T)} (h : (ms.map Prod.fst).Nodup) (key : String) :
    (ofList ms).get? key = ms.lookup key := by
  have hfold (acc : Members T) : get? key (ms.foldl (fun acc m => acc.put m.1 m.2) acc) =
      (ms.lookup key).or (acc.get? key) := by
    induction ms generalizing acc with
    | nil => rfl
    | cons m ms ih =>
      obtain ⟨k, v⟩ := m
      obtain ⟨hfirst, hrest⟩ := List.nodup_cons.mp h
      rw [List.foldl_cons, ih hrest, List.lookup_cons]
      by_cases hkey : key = k
      · subst hkey
        have hnone : ms.lookup key = none :=
          lookup_eq_none fun m hm heq => hfirst (List.mem_map.mpr ⟨m, hm, heq⟩)
        simp [hnone, get?_put_self]
      · have hne : (key == k) = false := by simpa using hkey
        rw [hne, get?_put_of_ne hkey]
  exact (hfold []).trans Option.or_none

theorem Ascending.put_append {ms : Members T} {m : String × Json T}
    (h : Ascending (ms ++ [m])) : ms.put m.1 m.2 = ms ++ [m] := by
  induction ms with
  | nil => rfl
  | cons n ms ih =>
    obtain ⟨hfirst, hrest⟩ := List.pairwise_cons.mp h
    have hlt : n.1 < m.1 := hfirst m (by simp)
    have hne : n.1 ≠ m.1 := fun heq => String.lt_irrefl m.1 (heq ▸ hlt)
    rw [List.cons_append, Members.put, if_neg hne, if_neg (String.lt_asymm hlt), ih hrest]

/-- Members whose keys ascend stay as they are. -/
theorem Ascending.ofList_eq {ms : Members T} (h : Ascending ms) : ofList ms = ms := by
  have hfold (acc rest : Members T) (hacc : Ascending (acc ++ rest)) :
      rest.foldl (fun acc m => acc.put m.1 m.2) acc = acc ++ rest := by
    induction rest generalizing acc with
    | nil => exact (List.append_nil acc).symm
    | cons m rest ih =>
      rw [List.append_cons] at hacc ⊢
      have hfirst : Ascending (acc ++ [m]) := hacc.sublist (List.sublist_append_left _ rest)
      rw [List.foldl_cons, hfirst.put_append]
      exact ih _ hacc
  exact hfold [] ms h

theorem mem_ofList {ms : List (String × Json T)} {m : String × Json T} (h : m ∈ ofList ms) :
    m ∈ ms := by
  have hfold (l : List (String × Json T)) (acc : Members T)
      (hm : m ∈ l.foldl (fun acc m => acc.put m.1 m.2) acc) : m ∈ l ∨ m ∈ acc := by
    induction l generalizing acc with
    | nil => exact Or.inr hm
    | cons n l ih =>
      obtain hl | hput := ih _ hm
      · exact Or.inl (List.mem_cons_of_mem n hl)
      · obtain rfl | hacc := mem_put hput
        · exact Or.inl List.mem_cons_self
        · exact Or.inr hacc
  exact (hfold ms [] h).resolve_right List.not_mem_nil

end Members

end Montage
