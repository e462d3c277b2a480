import Montage.Plan.Repair
import Montage.Proofs.Plan.Naming
import Montage.Time.Exact

/-!
# The numbers of new names

A free number is searched for from the one that was given before, one number after the other. Names
are given in two passages: to the fetches that are made for slots, and to the fetches of the plan
that have none yet. Main statement: each search of either passage comes to an end, at most one step
behind the number of names that are used, with the least number that is free; the names of both
passages are new and differ; and all that changes is that each fetch has a name.
-/

namespace Montage

namespace Plan

/-! ## The search for a number -/

/-- A search for a free number behind `n`, one step for each number that is looked at. -/
inductive Finds (used : List String) : Nat → Nat → Nat → Prop
  | free {n : Nat} (h : stockName (n + 1) ∉ used) : Finds used n 1 (n + 1)
  | taken {n steps m : Nat} (h : stockName (n + 1) ∈ used) (rest : Finds used (n + 1) steps m) :
      Finds used n (steps + 1) m

section
variable {used : List String} {n steps m : Nat}

theorem Finds.steps_eq (h : Finds used n steps m) : m = n + steps := by
  induction h with
  | free => rfl
  | taken _ _ ih => omega

theorem Finds.isNext (h : Finds used n steps m) : IsNext used n m := by
  induction h with
  | free hfree => exact ⟨Nat.lt_succ_self _, hfree, by omega⟩
  | @taken n steps m htaken _ ih =>
    refine ⟨Nat.lt_of_succ_lt ih.above, ih.free, fun i hi him => ?_⟩
    obtain rfl | hlater := Nat.eq_or_lt_of_le (Nat.succ_le_of_lt hi)
    · exact htaken
    · exact ih.least i hlater him

/-- The numbers that a search passes over have names that are used. -/
theorem Finds.steps_le (h : Finds used n steps m) : steps ≤ used.dedup.length + 1 := by
  have hpassed : steps - 1 ≤ used.dedup.length := by
    apply le_of_taken (n := n)
    intro i hlow hhigh
    have hm := h.steps_eq
    exact h.isNext.least i hlow (by omega)
  omega

/-- A search ends with the least free number, and nowhere else. -/
theorem finds_iff : Finds used n steps m ↔ IsNext used n m ∧ m = n + steps := by
  refine ⟨fun h => ⟨h.isNext, h.steps_eq⟩, ?_⟩
  rintro ⟨⟨habove, hfree, hleast⟩, rfl⟩
  induction steps generalizing n with
  | zero => exact absurd habove (Nat.lt_irrefl n)
  | succ steps ih =>
    cases steps with
    | zero => exact .free hfree
    | succ steps =>
      have hsum : n + 1 + (steps + 1) = n + (steps + 1 + 1) := by omega
      refine .taken (hleast (n + 1) (by omega) (by omega)) ?_
      rw [← hsum] at hfree hleast ⊢
      exact ih (by omega) hfree fun i hi => hleast i (Nat.lt_of_succ_lt hi)

theorem finds_nextNumber (used : List String) (n : Nat) :
    Finds used n (nextNumber used n - n) (nextNumber used n) := by
  have h := isNext_nextNumber used n
  exact finds_iff.mpr ⟨h, (Nat.add_sub_of_le (Nat.le_of_lt h.above)).symm⟩

end

/-! ## One passage -/

/-- The numbers of one passage behind `n`, each with its search. What is named by one is used for
the next. -/
inductive Numbers : List String → Nat → List Nat → Prop
  | nil (used : List String) (n : Nat) : Numbers used n []
  | cons {used : List String} {n m steps : Nat} {ms : List Nat} (found : Finds used n steps m)
      (short : steps ≤ used.dedup.length + 1) (rest : Numbers (stockName m :: used) m ms) :
      Numbers used n (m :: ms)

namespace Numbers
variable {used : List String} {n : Nat} {ms : List Nat}

theorem next (h : Numbers (stockName (nextNumber used n) :: used) (nextNumber used n) ms) :
    Numbers used n (nextNumber used n :: ms) :=
  .cons (finds_nextNumber used n) (finds_nextNumber used n).steps_le h

theorem increasing (h : Numbers used n ms) : (n :: ms).Pairwise (· < ·) := by
  induction h with
  | nil => exact List.pairwise_singleton _ _
  | @cons used n m steps ms found _ _ ih =>
    have hm := found.isNext.above
    refine List.pairwise_cons.mpr ⟨List.forall_mem_cons.mpr ⟨hm, fun i hi => ?_⟩, ih⟩
    exact Nat.lt_trans hm (List.rel_of_pairwise_cons ih hi)

theorem free (h : Numbers used n ms) : ∀ name ∈ ms.map stockName, name ∉ used := by
  induction h with
  | nil => exact List.forall_mem_nil _
  | cons found _ _ ih =>
    rw [List.map_cons, List.forall_mem_cons]
    exact ⟨found.isNext.free, fun name hname => List.not_mem_of_not_mem_cons (ih name hname)⟩

theorem nodup (h : Numbers used n ms) : (ms.map stockName).Nodup := by
  have hms : ms.Nodup := (List.pairwise_cons.mp h.increasing).2.imp Nat.ne_of_lt
  exact hms.map stockName_injective

end Numbers

/-! ## The plan behind a passage -/

section
variable {T : Type} {used : List String} {n i : Nat} {ts : Plan T}

/-- A fetch without a name. -/
def IsUnnamed (t : Task T) : Prop := t.isFetch = true ∧ t.output = none

/-- The fetches without a name have those of some numbers, and nothing else is changed. -/
inductive Fills : List Nat → Plan T → Plan T → Prop
  | nil : Fills [] [] []
  | keep {ms : List Nat} {t : Task T} {ts us : Plan T} (h : ¬ IsUnnamed t)
      (rest : Fills ms ts us) : Fills ms (t :: ts) (t :: us)
  | name {m : Nat} {ms : List Nat} {t : Task T} {ts us : Plan T} (h : IsUnnamed t)
      (rest : Fills ms ts us) :
      Fills (m :: ms) (t :: ts) ({ t with output := some (stockName m) } :: us)

namespace Fills
variable {ms : List Nat} {ts us : Plan T}

/-- What has a name keeps it. -/
theorem getElem?_eq (h : Fills ms ts us) {t : Task T} (ht : ts[i]? = some t)
    (hname : t.output.isSome = true) : us[i]? = some t := by
  induction h generalizing i with
  | nil => exact absurd ht nofun
  | keep _ _ ih =>
    cases i with
    | zero => exact ht
    | succ i => exact ih ht
  | name hunnamed _ ih =>
    cases i with
    | zero =>
      obtain rfl := Option.some.inj ht
      rw [hunnamed.2] at hname
      exact absurd hname Bool.false_ne_true
    | succ i => exact ih ht

end Fills

theorem nameFrom_numbers (used : List String) (n i : Nat) (ts : Plan T) :
    ∃ ms, Numbers used n ms ∧ Fills ms ts (nameFrom used n i ts).plan := by
  induction ts generalizing used n i with
  | nil => exact ⟨[], .nil used n, .nil⟩
  | cons t rest ih =>
    simp only [nameFrom]
    split_ifs with hname
    · have hunnamed : IsUnnamed t := by simpa [IsUnnamed] using hname
      obtain ⟨ms, hnumbers, hfills⟩ := ih (stockName (nextNumber used n) :: used) _ (i + 1)
      exact ⟨_ :: ms, hnumbers.next, .name hunnamed hfills⟩
    · have hnamed : ¬ IsUnnamed t := by simpa [IsUnnamed] using hname
      obtain ⟨ms, hnumbers, hfills⟩ := ih used n (i + 1)
      exact ⟨ms, hnumbers, .keep hnamed hfills⟩

variable [TimeScale T]

theorem pairsFor_numbers (used : List String) (n : Nat) (slots : List (Slot T)) :
    ∃ ms, Numbers used n ms ∧ ms.length = slots.length ∧
      names (pairsFor used n slots) = ms.map stockName := by
  induction slots generalizing used n with
  | nil => exact ⟨[], .nil used n, rfl, rfl⟩
  | cons s rest ih =>
    obtain ⟨ms, hnumbers, hlength, hnames⟩ := ih (stockName (nextNumber used n) :: used) _
    refine ⟨_ :: ms, hnumbers.next, congrArg (· + 1) hlength, ?_⟩
    rw [pairsFor, names_cons, names_cons, hnames]
    rfl

end

/-- What is to be said of the names that are given in both passages, by their numbers. -/
structure NewNames {T : Type} [TimeScale T] (slots : List (Slot T)) (ts : Plan T)
    (ms ns : List Nat) : Prop where
  /-- The searches for the names of the first passage, one for each slot. -/
  forSlots : Numbers ts.declaredNames 0 ms
  each : ms.length = slots.length
  given : names (pairsFor ts.declaredNames 0 slots) = ms.map stockName
  /-- The searches for those of the second. -/
  forFetches : Numbers (ts.withSlots slots).declaredNames 0 ns
  filled : Fills ns (ts.withSlots slots) (ts.withSlots slots).nameFetches.plan
  increasing : ms.Pairwise (· < ·) ∧ ns.Pairwise (· < ·)
  distinct : ((ms ++ ns).map stockName).Nodup
  new : ∀ name ∈ (ms ++ ns).map stockName, name ≠ sourceName ∧ name ∉ names ts
  /-- Behind both passages no fetch is without a name. -/
  named : Named (ts.withSlots slots).nameFetches.plan
  kept : ∀ (i : Nat) (t : Task T), ts[i]? = some t → t.output.isSome = true →
    (ts.withSlots slots).nameFetches.plan[i]? = some t

/-- The names that are given for slots and to the fetches of a plan: each search for one is short
and ends with the least free number, all are new and differ from each other, and behind them each
fetch has a name and each name is still where it was. Without slots there is one passage only. -/
theorem exists_newNames {T : Type} [TimeScale T] (slots : List (Slot T)) (ts : Plan T) :
    ∃ ms ns, NewNames slots ts ms ns := by
  obtain ⟨ms, hms, heach, hgiven⟩ := pairsFor_numbers ts.declaredNames 0 slots
  obtain ⟨ns, hns, hfills⟩ :=
    nameFrom_numbers (ts.withSlots slots).declaredNames 0 0 (ts.withSlots slots)
  have hnames : names (ts.withSlots slots) = names ts ++ ms.map stockName := by
    rw [← hgiven]
    exact names_append _ _
  have hfirst : ∀ name ∈ ms.map stockName, name ≠ sourceName ∧ name ∉ names ts := by
    intro name hname
    have hfree := hms.free name hname
    rw [mem_declaredNames] at hfree
    exact ⟨fun h => hfree (.inr h), fun h => hfree (.inl h)⟩
  -- to the second passage, the names of the first are used
  have hsecond : ∀ name ∈ ns.map stockName, name ≠ sourceName ∧ name ∉ names ts ∧
      name ∉ ms.map stockName := by
    intro name hname
    have hfree := hns.free name hname
    rw [mem_declaredNames, hnames, List.mem_append] at hfree
    exact ⟨fun h => hfree (.inr h), fun h => hfree (.inl (.inl h)), fun h => hfree (.inl (.inr h))⟩
  refine ⟨ms, ns, hms, heach, hgiven, hns, hfills, ⟨?_, ?_⟩, ?_, ?_, named_nameFetches _, ?_⟩
  · exact (List.pairwise_cons.mp hms.increasing).2
  · exact (List.pairwise_cons.mp hns.increasing).2
  · rw [List.map_append, List.nodup_append]
    refine ⟨hms.nodup, hns.nodup, ?_⟩
    rintro name hname _ hother rfl
    exact (hsecond name hother).2.2 hname
  · rw [List.map_append, List.forall_mem_append]
    exact ⟨hfirst, fun name hname => ⟨(hsecond name hname).1, (hsecond name hname).2.1⟩⟩
  · intro i t ht hname
    have hlt : i < ts.length := (List.getElem?_eq_some_iff.mp ht).1
    exact hfills.getElem?_eq ((List.getElem?_append_left hlt).trans ht) hname

/-- A fetch without a name between two tasks that have taken numbers. -/
def takenNames : Plan Rat :=
  [⟨.fetchVideo ⟨"city", [], 30, "landscape"⟩, some "stock_1", []⟩,
    ⟨.fetchImage ⟨"logo", [], "square"⟩, none, []⟩,
    ⟨.resize ⟨1280, none⟩, some "stock_3", [sourceName]⟩]

/-- Both passages go around the numbers that are taken, and the second around the first. -/
theorem exists_newNames_takenNames :
    let slots : List (Slot Rat) := [⟨5, 9, "", "sea", [], none⟩, ⟨20, 24, "", "wood", [], none⟩]
    ∃ ms ns, NewNames slots takenNames ms ns ∧ ms.map stockName = ["stock_2", "stock_4"] ∧
      names (takenNames.withSlots slots).nameFetches.plan =
        ["stock_1", "stock_5", "stock_3", "stock_2", "stock_4"] := by
  intro slots
  obtain ⟨ms, ns, h⟩ := exists_newNames slots takenNames
  exact ⟨ms, ns, h, h.given.symm.trans (by decide +kernel), by decide +kernel⟩

end Plan

end Montage
