import Mathlib.Data.List.Basic

/-!
# Lists that are split and read

A piece of a list that was split holds none of the elements that it was split at, and pieces with a
separator behind each are the pieces of what they make up. Reading every element of a list succeeds
if each is read.
-/

namespace Montage

theorem mem_splitOnP {α : Type} {sep : α → Bool} {s w : List α} (h : w ∈ s.splitOnP sep) :
    ∀ a ∈ w, a ∈ s ∧ sep a = false := by
  induction s generalizing w with
  | nil =>
    obtain rfl : w = [] := by simpa using h
    simp
  | cons b s ih =>
    rw [List.splitOnP_cons_eq_if_modifyHead] at h
    have htail {v : List α} (hv : v ∈ s.splitOnP sep) (a : α) (ha : a ∈ v) :
        a ∈ b :: s ∧ sep a = false :=
      ⟨List.mem_cons_of_mem b (ih hv a ha).1, (ih hv a ha).2⟩
    split_ifs at h with hb
    · rcases List.mem_cons.mp h with rfl | h
      · simp
      · exact htail h
    · obtain ⟨v, vs, hs⟩ := List.exists_cons_of_ne_nil (List.splitOnP_ne_nil sep s)
      rw [hs] at htail
      rw [hs, List.modifyHead_cons] at h
      rcases List.mem_cons.mp h with rfl | h
      · rw [List.forall_mem_cons]
        exact ⟨⟨List.mem_cons_self, by simpa using hb⟩, htail List.mem_cons_self⟩
      · exact htail (List.mem_cons_of_mem v h)

/-- Behind the last separator there is an empty piece. -/
theorem splitOn_flatMap {α : Type} [BEq α] [LawfulBEq α] {a : α} {pieces : List (List α)}
    (h : ∀ l ∈ pieces, a ∉ l) : (pieces.flatMap (· ++ [a])).splitOn a = pieces ++ [[]] := by
  induction pieces with
  | nil => rfl
  | cons l ls ih =>
    rw [List.forall_mem_cons] at h
    have hcons : (l :: ls).flatMap (· ++ [a]) = l ++ a :: ls.flatMap (· ++ [a]) := by simp
    have hl : l.splitOn a = [l] := by
      apply List.splitOnP_eq_singleton
      intro b hb
      simpa using ne_of_mem_of_not_mem hb h.1
    have hsplit : (l ++ a :: ls.flatMap (· ++ [a])).splitOn a =
        l.splitOn a ++ (ls.flatMap (· ++ [a])).splitOn a :=
      List.splitOnP_append_cons _ _ (beq_self_eq_true a)
    rw [hcons, hsplit, hl, ih h.2, List.singleton_append, List.cons_append]

theorem mapM_eq_some_iff {α β : Type} {f : α → Option β} {as : List α} {bs : List β} :
    as.mapM f = some bs ↔ as.map f = bs.map some := by
  induction as generalizing bs with
  | nil => cases bs <;> simp
  | cons a as ih =>
    rw [List.mapM_cons, List.map_cons]
    cases bs with
    | nil => simp [Option.bind_eq_some_iff]
    | cons b bs => simp [Option.bind_eq_some_iff, ih]

end Montage
