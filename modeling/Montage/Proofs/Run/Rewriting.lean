import Mathlib.Data.List.DropRight
import Montage.Proofs.Cli.Repair
import Montage.Proofs.Plan.Cuts
import Montage.Proofs.Plan.Descent
import Montage.Proofs.Run.Ancestry
import Montage.Proofs.Run.Without

/-!
# What tasks work on when an assembly is rewritten

An assembly is only rewritten if no other task reads the name of one of its parts. But a part also
leaves its artifact as the current file, and a task without inputs works on that. Main statement: in
runs that complete the same of the tasks before the joining that stay, those without inputs read
files that are made as before exactly if each of them that works on the current file finds it made
as the tasks that stay had left it. One that stands behind a part does not, as a rule: the last plan
below has such a task.
-/

namespace Montage

/-! ## The tasks that stay -/

theorem getElem?_filter_iff {α : Type} {p : α → Bool} {l : List α} {j : Nat} {x : α} :
    (l.filter p)[j]? = some x ↔
      ∃ n, l[n]? = some x ∧ p x = true ∧ (l.take n).countP p = j := by
  induction l generalizing j with
  | nil => simp
  | cons y l ih =>
    rw [List.filter_cons]
    constructor
    · intro h
      split_ifs at h with hy
      · cases j with
        | zero =>
          obtain rfl : y = x := by simpa using h
          exact ⟨0, rfl, hy, rfl⟩
        | succ j =>
          obtain ⟨n, hn, hx, hcount⟩ := ih.mp h
          exact ⟨n + 1, hn, hx, by simp [hy, hcount]⟩
      · obtain ⟨n, hn, hx, hcount⟩ := ih.mp h
        exact ⟨n + 1, hn, hx, by simp [hy, hcount]⟩
    · rintro ⟨n, hn, hx, rfl⟩
      cases n with
      | zero =>
        obtain rfl : y = x := by simpa using hn
        simp [hx]
      | succ n =>
        have hrest := ih.mpr ⟨n, hn, hx, rfl⟩
        split_ifs with hy
        · simpa [hy] using hrest
        · simpa [hy] using hrest

namespace Assembly
variable {T : Type} [TimeScale T]

/-- The task at its position stays, as it is useful and no part. -/
def retains (a : Assembly T) (ts : Plan T) (m : Task T × Nat) : Bool :=
  a.useful ts m.1 && !a.trims.any (·.position == m.2)

/-- The tasks before the joining that stay, at their positions. -/
def staying (a : Assembly T) (ts : Plan T) : List (Task T × Nat) :=
  (ts.zipIdx.take a.position).filter (a.retains ts)

/-- How many of the first `n` tasks stay. -/
def stays (a : Assembly T) (ts : Plan T) (n : Nat) : Nat := (ts.zipIdx.take n).countP (a.retains ts)

variable {a : Assembly T} {ts us before behind : Plan T} {t u : Task T} {name : String} {n : Nat}

omit [TimeScale T] in
theorem SplitsAt.take_zipIdx (hs : a.SplitsAt ts before t behind) :
    ts.zipIdx.take a.position = before.zipIdx := by
  rw [hs.zipIdx_eq, List.take_left' (by simp [hs.position_eq])]

theorem SplitsAt.mem_before_of_staying (hs : a.SplitsAt ts before t behind) {m : Task T × Nat}
    (hm : m ∈ a.staying ts) : m.1 ∈ before := by
  have hfront := (List.mem_filter.mp hm).1
  rw [hs.take_zipIdx] at hfront
  exact List.fst_mem_of_mem_zipIdx hfront

/-- In front of the overlays stand the tasks that stay. -/
theorem SplitsAt.fillGaps_eq (hs : a.SplitsAt ts before t behind) :
    ∃ rest, (a.fillGaps ts).plan =
      (a.staying ts).map Prod.fst ++ a.overlays ++ a.bounding :: rest := by
  have hfront : (a.without 0 before).filter (a.useful ts) = (a.staying ts).map Prod.fst := by
    unfold without staying
    rw [List.filter_map, List.filter_filter, hs.take_zipIdx]
    rfl
  have hoverlays : a.overlays.filter (a.useful ts) = a.overlays :=
    List.filter_eq_self.mpr fun u hu => useful_of_overlay (isKind_of_mem_overlays hu)
  refine ⟨(a.without (a.position + 1) behind).filter (a.useful ts), ?_⟩
  rw [fillGaps_plan, hs.rebuild, List.filter_append, List.filter_append, List.filter_append,
    hfront, hoverlays, List.filter_cons_of_pos useful_bounding, List.filter_nil,
    List.append_assoc _ [a.bounding], List.singleton_append]

theorem getElem?_staying {j i : Nat} : (a.staying ts)[j]? = some (t, i) ↔
    i < a.position ∧ ts[i]? = some t ∧ a.retains ts (t, i) = true ∧ a.stays ts i = j := by
  unfold staying stays
  rw [getElem?_filter_iff]
  constructor
  · rintro ⟨n, hn, hretains, hcount⟩
    rw [List.getElem?_take] at hn
    split_ifs at hn with hlt
    obtain ⟨ht, rfl⟩ : ts[n]? = some t ∧ n = i := by simpa using hn
    rw [List.take_take, Nat.min_eq_left (Nat.le_of_lt hlt)] at hcount
    exact ⟨hlt, ht, hretains, hcount⟩
  · rintro ⟨hlt, ht, hretains, hcount⟩
    refine ⟨i, by simp [hlt, ht], hretains, ?_⟩
    rwa [List.take_take, Nat.min_eq_left (Nat.le_of_lt hlt)]

/-- What is said of all tasks that stay is said of the positions before the joining. -/
theorem forall_staying {P : Nat → Task T → Nat → Prop} :
    (∀ j t i, (a.staying ts)[j]? = some (t, i) → P j t i) ↔
      ∀ i < a.position, ∀ t, ts[i]? = some t → a.retains ts (t, i) = true →
        P (a.stays ts i) t i := by
  constructor
  · intro hall i hi t ht hretains
    exact hall _ t i (getElem?_staying.mpr ⟨hi, ht, hretains, rfl⟩)
  · intro hall j t i hj
    obtain ⟨hi, ht, hretains, rfl⟩ := getElem?_staying.mp hj
    exact hall i hi t ht hretains

theorem forall_mem_staying {P : Task T → Nat → Prop} :
    (∀ t i, (t, i) ∈ a.staying ts → P t i) ↔
      ∀ i < a.position, ∀ t, ts[i]? = some t → a.retains ts (t, i) = true → P t i := by
  rw [← forall_staying (P := fun _ => P)]
  constructor
  · intro hall j t i hj
    exact hall t i (List.mem_of_getElem? hj)
  · intro hall t i hmem
    obtain ⟨j, hj⟩ := List.mem_iff_getElem?.mp hmem
    exact hall j t i hj

theorem stays_succ (ht : ts[n]? = some t) :
    a.stays ts (n + 1) = a.stays ts n + if a.retains ts (t, n) then 1 else 0 := by
  have hn : ts.zipIdx[n]? = some (t, n) := by simp [ht]
  unfold stays
  rw [List.take_add_one, hn, Option.toList_some, List.countP_append, List.countP_singleton]

/-- No task that stays reads a name that is given by one that goes. -/
theorem SplitsAt.not_read (hs : a.SplitsAt ts before t behind) (hfill : a.canFillGaps ts = true)
    {m : Task T × Nat} (hm : m ∈ a.staying ts) (hn : n < a.position) (hu : ts[n]? = some u)
    (hgone : a.retains ts (u, n) = false) (hname : name ∈ m.1.referencedNames) :
    u.output ≠ some name := by
  have hsplit := hs.split
  have hposition := hs.position_eq
  obtain ⟨rest, hplan⟩ := hs.fillGaps_eq
  have hrebuilt : m.1 ∈ a.rebuild ts := by
    have hstays : m.1 ∈ (a.fillGaps ts).plan := by
      rw [hplan]
      simp only [List.mem_append, List.mem_map]
      exact Or.inl (Or.inl ⟨m, hm, rfl⟩)
    exact (List.mem_filter.mp hstays).1
  rcases Bool.and_eq_false_iff.mp hgone with hfetch | hpart
  · -- A fetch goes if nothing reads its name.
    obtain ⟨-, given, houtput, hread⟩ := Plan.unread_of_not_useful hfetch
    rw [houtput]
    rintro ⟨⟩
    exact hread m.1 hrebuilt hname
  · -- The names of the parts are read by the joining alone.
    obtain ⟨s, hmem, rfl⟩ : ∃ s ∈ a.trims, s.position = n := by simpa using hpart
    have hat : (u, s.position) ∈ before.zipIdx := by
      rw [hsplit, List.getElem?_append_left (by omega)] at hu
      exact List.mem_zipIdx_iff_getElem?.mpr hu
    rw [hs.eq_task hmem hat]
    rintro ⟨⟩
    have hother : m.1 ∈ ts.eraseIdx a.position := by
      rw [hs.eraseIdx]
      exact List.mem_append_left _ (hs.mem_before_of_staying hm)
    have hshared : a.isShared ts = true := by
      refine List.any_eq_true.mpr ⟨m.1, hother, List.any_eq_true.mpr ⟨s.name, hname, ?_⟩⟩
      exact List.contains_iff_mem.mpr (List.mem_map_of_mem hmem)
    simp [canFillGaps, hshared] at hfill

end Assembly

/-! ## Two runs -/

namespace Assembly
variable {T : Type} [TimeScale T] [Spelled T]

/-- How the current file would be made behind `n` tasks if the parts left none: as the last of the
tasks left it that stay and are completed. -/
def left (a : Assembly T) (ts : Plan T) (b : Bench T) (n : Nat) : Lineage T :=
  (Ancestry.of (((b.madeUpTo ts n).rdropWhile fun m =>
    m.task.isFetch || !a.retains ts (m.task, m.position - 1)).map Made.task)).current

variable {a : Assembly T} {ts us before behind : Plan T} {t joining : Task T} {b b' : Bench T}
  {n : Nat}

theorem left_zero : a.left ts b 0 = .source := by
  unfold left
  rw [Bench.madeUpTo_zero]
  rfl

theorem left_succ_of_not (h : ¬ b.Completes ts n) : a.left ts b (n + 1) = a.left ts b n := by
  unfold left
  rw [Bench.madeUpTo_succ_of_not h]

theorem left_succ (ht : ts[n]? = some t) (h : b.Completes ts n) :
    a.left ts b (n + 1) =
      if t.isFetch || !a.retains ts (t, n) then a.left ts b n
      else .made t.op ((b.ancestry ts n).readBy t) := by
  obtain ⟨p, hmade⟩ := Bench.madeUpTo_succ ht h
  unfold left
  rw [hmade, List.rdropWhile_concat]
  simp only [Nat.add_sub_cancel]
  split_ifs with hpassed
  · rfl
  · have hfetch : t.isFetch = false := by
      cases hfetch : t.isFetch with
      | true => simp [hfetch] at hpassed
      | false => rfl
    rw [List.map_append, List.map_singleton, Ancestry.of_append, Ancestry.current_after,
      if_neg (by simp [hfetch])]
    rfl

/-- The plan `us` is run along with `ts`, and has come as far with the tasks that stay. To them
names stand for what is made alike, and the current file is made as they left it. -/
structure Follows (a : Assembly T) (ts us : Plan T) (b b' : Bench T) (n : Nat) : Prop where
  names : ∀ m ∈ a.staying ts, ∀ name ∈ m.1.referencedNames,
    (b'.ancestry us (a.stays ts n)).ofName name = (b.ancestry ts n).ofName name
  current : (b'.ancestry us (a.stays ts n)).current = a.left ts b n

namespace Follows

theorem zero : Follows a ts us b b' 0 where
  names m _ name _ := by
    have hstays : a.stays ts 0 = 0 := rfl
    rw [hstays, Bench.ancestry_zero, Bench.ancestry_zero]
  current := by
    have hstays : a.stays ts 0 = 0 := rfl
    rw [hstays, Bench.ancestry_zero, left_zero]
    rfl

/-- A task that stays reads what it read, unless it works on the current file and that is another.
-/
theorem readBy_eq (h : Follows a ts us b b' n) {m : Task T × Nat} (hm : m ∈ a.staying ts)
    (hcurrent : m.1.ReadsCurrent → a.left ts b n = (b.ancestry ts n).current) :
    (b'.ancestry us (a.stays ts n)).readBy m.1 = (b.ancestry ts n).readBy m.1 :=
  Ancestry.readBy_congr (h.names m hm) fun hreads => h.current.trans (hcurrent hreads)

/-- One task more. -/
theorem succ (hs : a.SplitsAt ts before joining behind) (hfill : a.canFillGaps ts = true)
    (h : Follows a ts us b b' n) (hn : n < a.position) (ht : ts[n]? = some t)
    (hstands : a.retains ts (t, n) = true → us[a.stays ts n]? = some t ∧
      (b'.Completes us (a.stays ts n) ↔ b.Completes ts n))
    (hcurrent : a.retains ts (t, n) = true → b.Completes ts n → t.ReadsCurrent →
      a.left ts b n = (b.ancestry ts n).current) : Follows a ts us b b' (n + 1) := by
  by_cases hretains : a.retains ts (t, n) = true
  · have hstays : a.stays ts (n + 1) = a.stays ts n + 1 := by
      rw [stays_succ ht, if_pos hretains]
    have hm : (t, n) ∈ a.staying ts :=
      List.mem_of_getElem? (getElem?_staying.mpr ⟨hn, ht, hretains, rfl⟩)
    obtain ⟨hus, hsame⟩ := hstands hretains
    by_cases hdone : b.Completes ts n
    · -- Both runs complete the task, and it reads the same in both.
      have hreads := h.readBy_eq hm (hcurrent hretains hdone)
      constructor
      · intro m hm' name hname
        rw [hstays, Bench.ancestry_succ hus (hsame.mpr hdone), Bench.ancestry_succ ht hdone,
          Ancestry.ofName_after, Ancestry.ofName_after, h.names m hm' name hname, hreads]
      · rw [hstays, Bench.ancestry_succ hus (hsame.mpr hdone), left_succ ht hdone,
          Ancestry.current_after, h.current, hreads]
        simp [hretains]
    · -- Neither of them does.
      constructor
      · intro m hm' name hname
        rw [hstays, Bench.ancestry_succ_of_not (hdone ∘ hsame.mp),
          Bench.ancestry_succ_of_not hdone, h.names m hm' name hname]
      · rw [hstays, Bench.ancestry_succ_of_not (hdone ∘ hsame.mp), left_succ_of_not hdone,
          h.current]
  · have hgone : a.retains ts (t, n) = false := Bool.eq_false_iff.mpr hretains
    have hstays : a.stays ts (n + 1) = a.stays ts n := by
      rw [stays_succ ht, if_neg hretains, Nat.add_zero]
    by_cases hdone : b.Completes ts n
    · -- The task goes, and nothing that stays reads its name.
      constructor
      · intro m hm name hname
        rw [hstays, Bench.ancestry_succ ht hdone, Ancestry.ofName_after,
          if_neg (hs.not_read hfill hm hn ht hgone hname), h.names m hm name hname]
      · rw [hstays, left_succ ht hdone, h.current, hgone]
        simp
    · constructor
      · intro m hm name hname
        rw [hstays, Bench.ancestry_succ_of_not hdone, h.names m hm name hname]
      · rw [hstays, left_succ_of_not hdone, h.current]

/-- Without inputs a task reads what it read exactly if it does not work on the current file, or
that is the same. -/
theorem readBy_eq_iff (h : Follows a ts us b b' n) {m : Task T × Nat} (hm : m ∈ a.staying ts) :
    (m.1.inputs = [] →
        (b'.ancestry us (a.stays ts n)).readBy m.1 = (b.ancestry ts n).readBy m.1) ↔
      (m.1.ReadsCurrent → a.left ts b n = (b.ancestry ts n).current) := by
  constructor
  · intro hreads hcurrent
    exact h.current.symm.trans (Ancestry.current_eq_of_readBy hcurrent (hreads hcurrent.inputs))
  · intro hcurrent _
    exact h.readBy_eq hm hcurrent

end Follows

/-- Where each step keeps the invariant under a condition, and the invariant makes the condition
another one, both hold at every step if one does. -/
theorem forall_iff_of_step {P Q : Nat → Prop} (Inv : Nat → Prop) (hzero : Inv 0)
    (hiff : ∀ i < n, Inv i → (P i ↔ Q i)) (hstep : ∀ i < n, Inv i → Q i → Inv (i + 1)) :
    (∀ i < n, P i) ↔ ∀ i < n, Q i := by
  have hinv (i : Nat) (hi : i ≤ n) (hbefore : ∀ j < i, Q j) : Inv i := by
    induction i with
    | zero => exact hzero
    | succ i ih =>
      have hprevious := ih (Nat.le_of_succ_le hi) fun j hj => hbefore j (Nat.lt_succ_of_lt hj)
      exact hstep i hi hprevious (hbefore i (Nat.lt_succ_self i))
  constructor
  · intro hall i
    induction i using Nat.strong_induction_on with
    | _ i ih =>
      intro hi
      have hbefore : ∀ j < i, Q j := fun j hj => ih j hj (Nat.lt_trans hj hi)
      exact (hiff i hi (hinv i (Nat.le_of_lt hi) hbefore)).mp (hall i hi)
  · intro hall i hi
    have hbefore : ∀ j < i, Q j := fun j hj => hall j (Nat.lt_trans hj hi)
    exact (hiff i hi (hinv i (Nat.le_of_lt hi) hbefore)).mpr (hall i hi)

end Assembly

namespace Plan
variable {T : Type} [TimeScale T] [Spelled T]

/-- When an assembly is rewritten, the tasks before the joining that stay are run before the
overlays. In runs that complete the same of them, those without inputs read files that are made as
before exactly if each that works on the current file finds it made as the tasks that stay had left
it. -/
theorem repairAssembly_keeps_reads_iff {k : Nat} {ts : Plan T}
    (h : .filledGaps k ∈ (repairAssembly ts).corrections) :
    ∃ a rest, ts.Rewrites a ∧
      (repairAssembly ts).plan = (a.staying ts).map Prod.fst ++ a.overlays ++ a.bounding :: rest ∧
      ∀ b b' : Bench T,
        (∀ j t i, (a.staying ts)[j]? = some (t, i) →
          (b'.Completes (repairAssembly ts).plan j ↔ b.Completes ts i)) →
        ((∀ j t i, (a.staying ts)[j]? = some (t, i) → b.Completes ts i → t.inputs = [] →
            (b'.ancestry (repairAssembly ts).plan j).readBy t = (b.ancestry ts i).readBy t) ↔
          ∀ t i, (t, i) ∈ a.staying ts → b.Completes ts i → t.ReadsCurrent →
            a.left ts b i = (b.ancestry ts i).current) := by
  obtain ⟨a, hfind, hforeign, hfill, hplan⟩ := exists_of_filledGaps h
  obtain ⟨before, joining, behind, hs⟩ := Assembly.exists_splitsAt hfind
  obtain ⟨rest, hfilled⟩ := hs.fillGaps_eq
  rw [hplan]
  refine ⟨a, rest, ⟨hfind, hforeign, hfill⟩, hfilled, fun b b' hsame => ?_⟩
  have hlength : a.position < ts.length := by
    rw [hs.split, hs.position_eq]
    simp
  have hstands {j i : Nat} {t : Task T} (hj : (a.staying ts)[j]? = some (t, i)) :
      (a.fillGaps ts).plan[j]? = some t := by
    have hlt : j < ((a.staying ts).map Prod.fst).length := by
      rw [List.length_map]
      exact (List.getElem?_eq_some_iff.mp hj).1
    rw [hfilled, List.append_assoc, List.getElem?_append_left hlt, List.getElem?_map, hj]
    rfl
  -- Both sides are said of the positions before the joining, which the run passes in turn.
  calc (∀ j t i, (a.staying ts)[j]? = some (t, i) → b.Completes ts i → t.inputs = [] →
          (b'.ancestry (a.fillGaps ts).plan j).readBy t = (b.ancestry ts i).readBy t)
    _ ↔ ∀ i < a.position, ∀ t, ts[i]? = some t → a.retains ts (t, i) = true → b.Completes ts i →
          t.inputs = [] → (b'.ancestry (a.fillGaps ts).plan (a.stays ts i)).readBy t =
            (b.ancestry ts i).readBy t := Assembly.forall_staying
    _ ↔ ∀ i < a.position, ∀ t, ts[i]? = some t → a.retains ts (t, i) = true → b.Completes ts i →
          t.ReadsCurrent → a.left ts b i = (b.ancestry ts i).current := by
        refine Assembly.forall_iff_of_step (Assembly.Follows a ts (a.fillGaps ts).plan b b') .zero
          (fun i hi hfollows => ?_) fun i hi hfollows hcurrent => ?_
        · refine forall_congr' fun t => forall_congr' fun ht => forall_congr' fun hretains =>
            forall_congr' fun _ => ?_
          exact hfollows.readBy_eq_iff (m := (t, i))
            (List.mem_of_getElem? (Assembly.getElem?_staying.mpr ⟨hi, ht, hretains, rfl⟩))
        · have ht : ts[i]? = some ts[i] := List.getElem?_eq_getElem (Nat.lt_trans hi hlength)
          refine hfollows.succ hs hfill hi ht (fun hretains => ?_) (hcurrent _ ht)
          have hj := Assembly.getElem?_staying.mpr ⟨hi, ht, hretains, rfl⟩
          exact ⟨hstands hj, hsame _ _ _ hj⟩
    _ ↔ ∀ t i, (t, i) ∈ a.staying ts → b.Completes ts i → t.ReadsCurrent →
          a.left ts b i = (b.ancestry ts i).current := Assembly.forall_mem_staying.symm

/-! ## A reprise -/

/-- What was made before is made smaller. -/
def reprise : Task Rat := ⟨.resize ⟨640, none⟩, some "v", []⟩

/-- Two parts with a clip between them, and the first part once more at the end, made smaller. -/
def reprisePlan : Plan Rat :=
  [⟨.trim ⟨0, some 10⟩, some "a", [sourceName]⟩,
    reprise,
    ⟨.fetchVideo ⟨"sea", [], 30, "landscape"⟩, some "x", []⟩,
    ⟨.trim ⟨15, some 20⟩, some "b", [sourceName]⟩,
    ⟨.concat ⟨[]⟩, some "w", ["a", "x", "b"]⟩,
    ⟨.concat ⟨[]⟩, none, ["w", "v"]⟩]

/-- With the clip laid over the gap. -/
def filledReprise : Plan Rat :=
  [reprise,
    ⟨.fetchVideo ⟨"sea", [], 30, "landscape"⟩, some "x", []⟩,
    ⟨.overlayVideo ⟨10, some 15, "x"⟩, none, [sourceName]⟩,
    ⟨.trim ⟨0, some 20⟩, some "w", []⟩,
    ⟨.concat ⟨[]⟩, none, ["w", "v"]⟩]

/-- The assembly of the plan. -/
def repriseAssembly : Assembly Rat where
  position := 4
  inputs := ["a", "x", "b"]
  output := some "w"
  trims := [⟨0, "a", 0, some 10⟩, ⟨3, "b", 15, some 20⟩]
  clips := ["x"]

theorem gaps_repriseAssembly : repriseAssembly.gaps = [(10, 15)] := by
  rw [Assembly.gaps_of_pairwise [(0, 10), (15, 20)] rfl (by decide +kernel)]
  decide +kernel

theorem overlays_repriseAssembly : repriseAssembly.overlays =
    [⟨.overlayVideo ⟨10, some 15, "x"⟩, none, [sourceName]⟩] := by
  have hstart : Tenth.nearest (10 : Rat) = 10 := by decide +kernel
  have hstop : Tenth.nearest (15 : Rat) = 15 := by decide +kernel
  rw [Assembly.overlays, gaps_repriseAssembly]
  simp [repriseAssembly, Assembly.overlay, Task.ofOperation, hstart, hstop]

theorem repairAssembly_reprisePlan :
    repairAssembly reprisePlan = ⟨filledReprise, [.filledGaps 1]⟩ := by
  have hfind : Assembly.find? reprisePlan = some repriseAssembly := rfl
  have hfill : repriseAssembly.canFillGaps reprisePlan = true := by
    rw [Assembly.canFillGaps, gaps_repriseAssembly]
    decide +kernel
  simp only [repairAssembly, hfind]
  rw [if_neg (by decide +kernel), if_pos hfill]
  simp only [Assembly.fillGaps, Assembly.rebuild, overlays_repriseAssembly]
  rfl

/-- The desk with a media tool and a content source that never fail on it. -/
def repriseBench : Bench Rat := ⟨⟨echo, shelf, ⟨"/font.ttf"⟩⟩, ⟨"/in.mp4"⟩, deskScratch, desk⟩

theorem made_reprisePlan :
    (repriseBench.made reprisePlan).map Made.position = [1, 2, 3, 4, 5, 6] := by
  decide +kernel

theorem made_filledReprise :
    (repriseBench.made filledReprise).map Made.position = [1, 2, 3, 4, 5] := by
  decide +kernel

theorem completes_reprisePlan : ∀ n < reprisePlan.length, repriseBench.Completes reprisePlan n := by
  simp only [Bench.completes_iff, made_reprisePlan]
  decide

theorem completes_filledReprise :
    ∀ n < filledReprise.length, repriseBench.Completes filledReprise n := by
  simp only [Bench.completes_iff, made_filledReprise]
  decide

theorem repairAssembly_keeps_reads_iff_reprisePlan :
    .filledGaps 1 ∈ (repairAssembly reprisePlan).corrections ∧
      ∃ a rest, reprisePlan.Rewrites a ∧
        (repairAssembly reprisePlan).plan =
          (a.staying reprisePlan).map Prod.fst ++ a.overlays ++ a.bounding :: rest ∧
        ((∀ j t i, (a.staying reprisePlan)[j]? = some (t, i) →
            repriseBench.Completes reprisePlan i → t.inputs = [] →
            (repriseBench.ancestry (repairAssembly reprisePlan).plan j).readBy t =
              (repriseBench.ancestry reprisePlan i).readBy t) ↔
          ∀ t i, (t, i) ∈ a.staying reprisePlan → repriseBench.Completes reprisePlan i →
            t.ReadsCurrent → a.left reprisePlan repriseBench i =
              (repriseBench.ancestry reprisePlan i).current) := by
  have hfilled : .filledGaps 1 ∈ (repairAssembly reprisePlan).corrections := by
    rw [repairAssembly_reprisePlan]
    exact List.mem_singleton_self _
  obtain ⟨a, rest, ha, hplan, hall⟩ := repairAssembly_keeps_reads_iff hfilled
  refine ⟨hfilled, a, rest, ha, hplan, hall repriseBench repriseBench fun j t i hj => ?_⟩
  obtain ⟨-, ht, -, -⟩ := Assembly.getElem?_staying.mp hj
  have hi : i < reprisePlan.length := (List.getElem?_eq_some_iff.mp ht).1
  have hlt : j < filledReprise.length := by
    have hlength := congrArg List.length hplan
    have hstaying : j < (a.staying reprisePlan).length := (List.getElem?_eq_some_iff.mp hj).1
    rw [repairAssembly_reprisePlan] at hlength
    simp only [List.length_append, List.length_map] at hlength
    omega
  rw [repairAssembly_reprisePlan]
  exact iff_of_true (completes_filledReprise j hlt) (completes_reprisePlan i hi)

/-- All tasks are completed before and after the assembly is rewritten. What was the first part made
smaller is the whole source then. -/
theorem reprise_loses_part :
    (∀ t ∈ reprisePlan, t.op.flaw?.isNone) ∧
      (repairAssembly reprisePlan).corrections = [.filledGaps 1] ∧
      (∀ n < reprisePlan.length, repriseBench.Completes reprisePlan n) ∧
      (∀ n < (repairAssembly reprisePlan).plan.length,
        repriseBench.Completes (repairAssembly reprisePlan).plan n) ∧
      reprisePlan[1]? = some reprise ∧ (repairAssembly reprisePlan).plan[0]? = some reprise ∧
      (repriseBench.ancestry reprisePlan 1).readBy reprise =
        [.made (.trim ⟨0, some 10⟩) [.source]] ∧
      (repriseBench.ancestry (repairAssembly reprisePlan).plan 0).readBy reprise = [.source] := by
  rw [repairAssembly_reprisePlan]
  refine ⟨by decide +kernel, rfl, completes_reprisePlan, completes_filledReprise, rfl, rfl, ?_, ?_⟩
  · rw [Bench.ancestry_eq, made_reprisePlan]
    rfl
  · rw [Bench.ancestry_zero]
    rfl

end Plan

end Montage
