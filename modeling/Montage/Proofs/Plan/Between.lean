import Mathlib
import Montage.Plan.Assembly
import Montage.Proofs.Lists
import Montage.Proofs.Time.Line

/-!
# Between windows

Gaps are taken between each window and the next, in the order of their starts, wherever the one ends
before the other begins. Main statements: gaps follow one another, they keep clear of windows that
do not overlap, and an instant among the windows that none of them holds lies in a gap. All of this
is said of windows on any line, and then of the parts of an assembly on that of its scale.
-/

namespace Montage
open TimeScale OnLine

namespace Assembly

/-! ## Windows on a line -/

/-- A gap lies between a window and the next. -/
theorem consecutive_of_mem_between {α : Type} [LT α] [DecidableLT α] {gap : α × α}
    {windows : List (α × α)} (h : gap ∈ between windows) :
    ∃ front v w behind, windows = front ++ v :: w :: behind ∧ gap = (v.2, w.1) ∧ v.2 < w.1 := by
  fun_induction between windows with
  | case1 => exact absurd h List.not_mem_nil
  | case2 w => exact absurd h List.not_mem_nil
  | case3 v w rest hgap ih =>
    obtain rfl | h := List.mem_cons.mp h
    · exact ⟨[], v, w, rest, rfl, rfl, hgap⟩
    · obtain ⟨front, u, u', behind, hwindows, hrest⟩ := ih h
      exact ⟨v :: front, u, u', behind, congrArg (v :: ·) hwindows, hrest⟩
  | case4 v w rest _ ih =>
    obtain ⟨front, u, u', behind, hwindows, hrest⟩ := ih h
    exact ⟨v :: front, u, u', behind, congrArg (v :: ·) hwindows, hrest⟩

theorem length_between_cons_le {α : Type} [LT α] [DecidableLT α] (v : α × α)
    (rest : List (α × α)) : (between (v :: rest)).length ≤ rest.length := by
  induction rest generalizing v with
  | nil => exact Nat.le_refl 0
  | cons w rest ih =>
    rw [between]
    split_ifs
    · exact Nat.succ_le_succ (ih w)
    · exact Nat.le_succ_of_le (ih w)

/-- Gaps can be taken before or after windows are moved to another line that keeps their order. -/
theorem between_map {α β : Type} [LT α] [DecidableLT α] [LT β] [DecidableLT β] (f : α → β)
    {windows : List (α × α)}
    (h : ∀ v ∈ windows, ∀ w ∈ windows, v.2 < w.1 ↔ f v.2 < f w.1) :
    between (windows.map (Prod.map f f)) = (between windows).map (Prod.map f f) := by
  induction windows with
  | nil => rfl
  | cons v rest ih =>
    cases rest with
    | nil => rfl
    | cons w rest =>
      have hrest := ih fun u hu u' hu' =>
        h u (List.mem_cons_of_mem v hu) u' (List.mem_cons_of_mem v hu')
      have hfirst : v.2 < w.1 ↔ f v.2 < f w.1 := h v (by simp) w (by simp)
      simp only [List.map_cons, between, Prod.map_fst, Prod.map_snd, ← hfirst] at hrest ⊢
      split_ifs with hgap
      · rw [hrest]
        rfl
      · exact hrest

section
variable {α : Type} [LinearOrder α] [DecidableLT α] {windows : List (α × α)}

/-- An instant behind the end of a window and before that of a later one lies in a gap, if no later
window holds it. -/
theorem exists_mem_between_cons {x : α} {v : α × α} {rest : List (α × α)} (hv : v.2 ≤ x)
    (hhigh : ∃ w ∈ rest, x < w.2) (hfree : ∀ w ∈ rest, w.1 ≤ x → w.2 ≤ x) :
    ∃ gap ∈ between (v :: rest), gap.1 ≤ x ∧ x < gap.2 := by
  induction rest generalizing v with
  | nil =>
    obtain ⟨w, hw, -⟩ := hhigh
    exact absurd hw List.not_mem_nil
  | cons w rest ih =>
    rw [between]
    by_cases hx : x < w.1
    · rw [if_pos (hv.trans_lt hx)]
      exact ⟨(v.2, w.1), List.mem_cons_self, hv, hx⟩
    · have hw : w.2 ≤ x := hfree w List.mem_cons_self (not_lt.mp hx)
      have hlater : ∃ u ∈ rest, x < u.2 := by
        obtain ⟨u, hu, hstop⟩ := hhigh
        obtain rfl | hu := List.mem_cons.mp hu
        · exact absurd hstop (not_lt.mpr hw)
        · exact ⟨u, hu, hstop⟩
      obtain ⟨gap, hgap, hmem⟩ := ih hw hlater fun u hu => hfree u (List.mem_cons_of_mem w hu)
      refine ⟨gap, ?_, hmem⟩
      split_ifs
      · exact List.mem_cons_of_mem _ hgap
      · exact hgap

section
variable (hsorted : windows.Pairwise fun v w => v.1 ≤ w.1)
include hsorted

/-- An instant behind one start and before one end lies in a gap, if no window holds it. -/
theorem exists_mem_between {x : α} (hlow : ∃ w ∈ windows, w.1 ≤ x)
    (hhigh : ∃ w ∈ windows, x < w.2) (hfree : ∀ w ∈ windows, w.1 ≤ x → w.2 ≤ x) :
    ∃ gap ∈ between windows, gap.1 ≤ x ∧ x < gap.2 := by
  cases windows with
  | nil =>
    obtain ⟨w, hw, -⟩ := hlow
    exact absurd hw List.not_mem_nil
  | cons v rest =>
    obtain ⟨hfirst, -⟩ := List.pairwise_cons.mp hsorted
    -- The first window starts before all others, and so before the instant.
    have hv : v.2 ≤ x := by
      obtain ⟨w, hw, hstart⟩ := hlow
      refine hfree v List.mem_cons_self ?_
      obtain rfl | hw := List.mem_cons.mp hw
      · exact hstart
      · exact (hfirst w hw).trans hstart
    have hlater : ∃ w ∈ rest, x < w.2 := by
      obtain ⟨w, hw, hstop⟩ := hhigh
      obtain rfl | hw := List.mem_cons.mp hw
      · exact absurd hstop (not_lt.mpr hv)
      · exact ⟨w, hw, hstop⟩
    exact exists_mem_between_cons hv hlater fun w hw => hfree w (List.mem_cons_of_mem v hw)

variable (hlong : ∀ w ∈ windows, w.1 < w.2)
include hlong

/-- The gaps between windows in order of their starts follow one another. -/
theorem pairwise_between : (between windows).Pairwise fun gap later => gap.2 < later.1 := by
  fun_induction between windows with
  | case1 => exact .nil
  | case2 w => exact .nil
  | case3 v w rest hgap ih =>
    have hrest := (List.pairwise_cons.mp hsorted).2
    refine .cons (fun later hlater => ?_) (ih hrest (List.forall_mem_cons.mp hlong).2)
    -- A later gap begins with the end of a window that does not start before this gap ends.
    obtain ⟨front, u, u', behind, hwindows, rfl, -⟩ := consecutive_of_mem_between hlater
    have hu : u ∈ w :: rest := by simp [hwindows]
    have hstart : w.1 ≤ u.1 := by
      obtain rfl | hu := List.mem_cons.mp hu
      · exact le_rfl
      · exact List.rel_of_pairwise_cons hrest hu
    exact hstart.trans_lt (hlong u (List.mem_cons_of_mem v hu))
  | case4 v w rest _ ih =>
    exact ih (List.pairwise_cons.mp hsorted).2 (List.forall_mem_cons.mp hlong).2

/-- Windows that do not overlap leave the gaps between them alone. -/
theorem disjoint_of_mem_between [DenselyOrdered α]
    (hapart : windows.Pairwise fun v w => Disjoint (Set.Ioo v.1 v.2) (Set.Ioo w.1 w.2))
    {gap u : α × α} (hgap : gap ∈ between windows) (hu : u ∈ windows) :
    Disjoint (Set.Icc gap.1 gap.2) (Set.Ioo u.1 u.2) := by
  obtain ⟨front, v, w, behind, rfl, rfl, -⟩ := consecutive_of_mem_between hgap
  have hv := hlong v (by simp)
  rw [Set.disjoint_left]
  rintro x ⟨hlow, hhigh⟩ ⟨hstart, hstop⟩
  obtain ⟨-, hbehind, hacross⟩ := List.pairwise_append.mp hsorted
  obtain hfront | hrest := List.mem_append.mp hu
  · -- A window in front starts before `v`. If it reached the gap, it would overlap all of `v`.
    have hbefore := hacross u hfront v List.mem_cons_self
    have hno := (List.pairwise_append.mp hapart).2.2 u hfront v List.mem_cons_self
    obtain ⟨y, hfrom, hto⟩ := exists_between hv
    exact Set.disjoint_left.mp hno ⟨hbefore.trans_lt hfrom, (hto.trans_le hlow).trans hstop⟩
      ⟨hfrom, hto⟩
  · obtain rfl | hrest := List.mem_cons.mp hrest
    · exact absurd hlow (not_le.mpr hstop)
    · have hw : w.1 ≤ u.1 := by
        obtain rfl | hrest := List.mem_cons.mp hrest
        · exact le_rfl
        · exact List.rel_of_pairwise_cons (List.pairwise_cons.mp hbehind).2 hrest
      exact absurd hhigh (not_le.mpr (hw.trans_lt hstart))

end

end

end Assembly

/-! ## Parts of the source -/

section
variable {T : Type}

/-- The window of a part. One without an end is as long as nothing. -/
def SourceTrim.window (s : SourceTrim T) : T × T := (s.start, s.stop.getD s.start)

variable [TimeScale T]

/-- The part starts and stops at defined times. -/
def SourceTrim.Placed (s : SourceTrim T) : Prop :=
  Defined s.start ∧ ∃ stop, s.stop = some stop ∧ Defined stop

/-- The windows of the parts of an assembly, in the order of their starts. -/
def Assembly.windows (a : Assembly T) : List (T × T) :=
  (a.trims.map SourceTrim.window).mergeSort fun v w => ascending v.1 w.1

end

namespace Assembly

section
variable {T : Type} [TimeScale T] {a : Assembly T}

theorem windows_perm (a : Assembly T) : a.windows.Perm (a.trims.map SourceTrim.window) :=
  List.mergeSort_perm _ _

section
variable (hstops : ∀ s ∈ a.trims, ∃ stop, s.stop = some stop)
include hstops

theorem mem_windows {w : T × T} :
    w ∈ a.windows ↔ ∃ s ∈ a.trims, s.start = w.1 ∧ s.stop = some w.2 := by
  rw [(windows_perm a).mem_iff, List.mem_map]
  constructor
  · rintro ⟨s, hs, rfl⟩
    obtain ⟨stop, hstop⟩ := hstops s hs
    exact ⟨s, hs, rfl, by rw [SourceTrim.window, hstop, Option.getD_some]⟩
  · rintro ⟨s, hs, hstart, hstop⟩
    exact ⟨s, hs, by rw [SourceTrim.window, hstop, hstart, Option.getD_some]⟩

/-- The gaps between parts that all have an end. -/
theorem gaps_eq_between : a.gaps = between a.windows := by
  have hwindows : (a.trims.mapM fun s => s.stop.map fun stop => (s.start, stop)) =
      some (a.trims.map SourceTrim.window) := by
    rw [mapM_eq_some_iff, List.map_map]
    apply List.map_congr_left
    intro s hs
    obtain ⟨stop, hstop⟩ := hstops s hs
    simp only [Function.comp_apply, SourceTrim.window, hstop, Option.map_some, Option.getD_some]
  simp only [gaps, hwindows, windows]

end

theorem stops_of_gaps (h : a.gaps ≠ []) : ∀ s ∈ a.trims, ∃ stop, s.stop = some stop := by
  intro s hs
  unfold gaps at h
  split at h
  · next windows hwindows =>
    have hmem : (s.stop.map fun stop => (s.start, stop)) ∈ windows.map some :=
      mapM_eq_some_iff.mp hwindows ▸ List.mem_map.mpr ⟨s, hs, rfl⟩
    obtain ⟨window, -, hwindow⟩ := List.mem_map.mp hmem
    obtain ⟨stop, hstop, -⟩ := Option.map_eq_some_iff.mp hwindow.symm
    exact ⟨stop, hstop⟩
  · exact absurd rfl h

theorem exists_of_mem_gaps {gap : T × T} (h : gap ∈ a.gaps) :
    ∃ s ∈ a.trims, s.stop = some gap.1 := by
  have hstops := stops_of_gaps (List.ne_nil_of_mem h)
  obtain ⟨front, v, w, behind, hwindows, rfl, -⟩ :=
    consecutive_of_mem_between (gaps_eq_between hstops ▸ h)
  obtain ⟨s, hs, -, hs'⟩ := (mem_windows hstops).mp (by simp [hwindows] : v ∈ a.windows)
  exact ⟨s, hs, hs'⟩

section
variable (hplaced : ∀ s ∈ a.trims, s.Placed)
include hplaced

theorem stops_of_placed : ∀ s ∈ a.trims, ∃ stop, s.stop = some stop := by
  intro s hs
  obtain ⟨-, stop, hstop, -⟩ := hplaced s hs
  exact ⟨stop, hstop⟩

theorem defined_of_mem_windows : ∀ w ∈ a.windows, Defined w.1 ∧ Defined w.2 := by
  intro w hw
  obtain ⟨s, hs, hstart, hstop⟩ := (mem_windows (stops_of_placed hplaced)).mp hw
  obtain ⟨hdefined, stop, hstop', hdefined'⟩ := hplaced s hs
  obtain rfl : w.2 = stop := Option.some.inj (hstop.symm.trans hstop')
  exact ⟨hstart ▸ hdefined, hdefined'⟩

end

end

/-! ## Parts on a line -/

variable {T : Type} [TimeScale T] [OnLine T] {a : Assembly T}

/-- The windows of the parts as windows on the line. -/
def instants (a : Assembly T) : List (EReal × EReal) := a.windows.map (Prod.map instant instant)

variable (hplaced : ∀ s ∈ a.trims, s.Placed)
include hplaced

theorem mem_instants {w : EReal × EReal} : w ∈ a.instants ↔
    ∃ s ∈ a.trims, ∃ stop, s.stop = some stop ∧ instant s.start = w.1 ∧ instant stop = w.2 := by
  rw [instants, List.mem_map]
  constructor
  · rintro ⟨v, hv, rfl⟩
    obtain ⟨s, hs, hstart, hstop⟩ := (mem_windows (stops_of_placed hplaced)).mp hv
    exact ⟨s, hs, v.2, hstop, congrArg instant hstart, rfl⟩
  · rintro ⟨s, hs, stop, hstop, hlow, hhigh⟩
    exact ⟨(s.start, stop), (mem_windows (stops_of_placed hplaced)).mpr ⟨s, hs, rfl, hstop⟩,
      Prod.ext hlow hhigh⟩

theorem pairwise_instants : a.instants.Pairwise fun v w => v.1 ≤ w.1 := by
  rw [instants, List.pairwise_map]
  refine (Ascends.pairwise_mergeSort Prod.fst (a.trims.map SourceTrim.window)).imp_of_mem ?_
  intro v w hv hw h
  exact instant_le (defined_of_mem_windows hplaced v hv).1 (defined_of_mem_windows hplaced w hw).1 h

/-- The gaps on the line are those between the windows there. -/
theorem between_instants : between a.instants = a.gaps.map (Prod.map instant instant) := by
  rw [instants, gaps_eq_between (stops_of_placed hplaced)]
  refine between_map instant fun v hv w hw => ?_
  rw [OnLine.lt_iff]
  simp only [(defined_of_mem_windows hplaced v hv).2, (defined_of_mem_windows hplaced w hw).1,
    true_and]

/-- An instant behind the first start and before the last end lies in a gap, if no part holds
it. -/
theorem exists_mem_gaps {x : EReal} (hlow : ∃ s ∈ a.trims, instant s.start ≤ x)
    (hhigh : ∃ s ∈ a.trims, ∃ stop, s.stop = some stop ∧ x < instant stop)
    (hfree : ∀ s ∈ a.trims, ∀ stop, s.stop = some stop → instant s.start ≤ x → instant stop ≤ x) :
    ∃ gap ∈ a.gaps, instant gap.1 ≤ x ∧ x < instant gap.2 := by
  have hlow' : ∃ w ∈ a.instants, w.1 ≤ x := by
    obtain ⟨s, hs, hstart⟩ := hlow
    obtain ⟨stop, hstop⟩ := stops_of_placed hplaced s hs
    exact ⟨(instant s.start, instant stop),
      (mem_instants hplaced).mpr ⟨s, hs, stop, hstop, rfl, rfl⟩, hstart⟩
  have hhigh' : ∃ w ∈ a.instants, x < w.2 := by
    obtain ⟨s, hs, stop, hstop, hx⟩ := hhigh
    exact ⟨(instant s.start, instant stop),
      (mem_instants hplaced).mpr ⟨s, hs, stop, hstop, rfl, rfl⟩, hx⟩
  have hfree' : ∀ w ∈ a.instants, w.1 ≤ x → w.2 ≤ x := by
    intro w hw
    obtain ⟨s, hs, stop, hstop, hstart, hstop'⟩ := (mem_instants hplaced).mp hw
    rw [← hstart, ← hstop']
    exact hfree s hs stop hstop
  obtain ⟨w, hw, hmem⟩ := exists_mem_between (pairwise_instants hplaced) hlow' hhigh' hfree'
  rw [between_instants hplaced] at hw
  obtain ⟨gap, hgap, rfl⟩ := List.mem_map.mp hw
  exact ⟨gap, hgap, hmem⟩

/-- The window of the part that plays on reaches from the first start to the last stop. -/
theorem exists_bounding (hne : a.trims ≠ []) : ∃ low high,
    a.bounding.op = .trim ⟨low, some high⟩ ∧ IsLeast {x | ∃ s ∈ a.trims, s.start = x} low ∧
      IsGreatest {x | ∃ s ∈ a.trims, s.stop = some x} high := by
  obtain ⟨s, rest, htrims⟩ := List.exists_cons_of_ne_nil hne
  obtain ⟨stop, hstop⟩ := stops_of_placed hplaced s (htrims ▸ List.mem_cons_self)
  have hstarts : a.trims.map SourceTrim.start = s.start :: rest.map SourceTrim.start := by
    rw [htrims, List.map_cons]
  have hstops : a.trims.filterMap SourceTrim.stop = stop :: rest.filterMap SourceTrim.stop := by
    rw [htrims, List.filterMap_cons_some hstop]
  refine ⟨(rest.map SourceTrim.start).foldl earlier s.start,
    (rest.filterMap SourceTrim.stop).foldl later stop, ?_, ?_, ?_⟩
  · simp only [bounding, hstarts, hstops, List.tail_cons, List.headD_cons]
  · have hdefined : ∀ x ∈ a.trims.map SourceTrim.start, Defined x :=
      List.forall_mem_map.mpr fun s hs => (hplaced s hs).1
    have hleast := isLeast_foldl_earlier (hstarts ▸ hdefined)
    rw [← hstarts] at hleast
    simpa only [List.mem_map] using hleast
  · have hdefined : ∀ x ∈ a.trims.filterMap SourceTrim.stop, Defined x := by
      intro x hx
      obtain ⟨s, hs, hstop⟩ := List.mem_filterMap.mp hx
      obtain ⟨-, stop, hstop', hdefined⟩ := hplaced s hs
      obtain rfl : x = stop := Option.some.inj (hstop.symm.trans hstop')
      exact hdefined
    have hgreatest := isGreatest_foldl_later (hstops ▸ hdefined)
    rw [← hstops] at hgreatest
    simpa only [List.mem_filterMap] using hgreatest

end Assembly

end Montage
