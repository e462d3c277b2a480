import Mathlib
import Montage.Proofs.Plan.Between
import Montage.Proofs.Time.Binary

/-!
# Gaps between parts of the source

The gaps of an assembly are taken between each part and the next, in the order of their starts. Main
statement, for parts that all end behind their starts, on any scale that lies on a line: the gaps
are longer than nothing, apart from one another and in ascending order, fewer than the parts, and
inside of the part that plays on. Parts that do not overlap tile that part together with the gaps,
down to the instants that are no number of the scale. The order in which the parts are given only
matters where two of them start at once.
-/

namespace Montage
open TimeScale OnLine

namespace SourceTrim

variable {T : Type} [TimeScale T]

/-- The part ends, and behind its start. -/
def Closed (s : SourceTrim T) : Prop := ∃ stop, s.stop = some stop ∧ s.start < stop

variable [OnLine T] {s u : SourceTrim T}

/-- The instants of the part, with its start and its end. -/
def span (s : SourceTrim T) : Set EReal :=
  {x | instant s.start ≤ x ∧ ∀ stop ∈ s.stop, x ≤ instant stop}

/-- The instants of the part, without its start and its end. -/
def inside (s : SourceTrim T) : Set EReal :=
  {x | instant s.start < x ∧ ∀ stop ∈ s.stop, x < instant stop}

theorem Closed.placed (h : s.Closed) : s.Placed := by
  obtain ⟨stop, hstop, hlt⟩ := h
  obtain ⟨hstart, hdefined, -⟩ := lt_iff.mp hlt
  exact ⟨hstart, stop, hstop, hdefined⟩

theorem span_of_stop {stop : T} (h : s.stop = some stop) :
    s.span = Set.Icc (instant s.start) (instant stop) := by
  ext x
  simp only [span, h, Option.mem_some_iff, forall_eq', Set.mem_ofPred_eq, Set.mem_Icc]

theorem inside_eq (h : s.Placed) :
    s.inside = Set.Ioo (instant s.window.1) (instant s.window.2) := by
  obtain ⟨-, stop, hstop, -⟩ := h
  ext x
  simp only [inside, window, hstop, Option.mem_some_iff, forall_eq', Option.getD_some,
    Set.mem_ofPred_eq, Set.mem_Ioo]

/-- A part that ends before another starts does not overlap it. -/
theorem disjoint_inside (hs : s.Placed) (hu : u.Placed) (h : s.window.2 ≤ u.window.1) :
    Disjoint s.inside u.inside := by
  rw [inside_eq hs, inside_eq hu, Set.disjoint_left]
  rintro x ⟨-, hhigh⟩ ⟨hlow, -⟩
  exact absurd (hhigh.trans_le (le_iff.mp h).2.2) (not_lt.mpr hlow.le)

end SourceTrim

namespace Assembly

variable {T : Type} [TimeScale T] [OnLine T] {a b : Assembly T}

section
variable (hclosed : ∀ s ∈ a.trims, s.Closed)
include hclosed

theorem placed_of_closed : ∀ s ∈ a.trims, s.Placed := fun s hs => (hclosed s hs).placed

theorem lt_of_mem_instants : ∀ w ∈ a.instants, w.1 < w.2 := by
  intro w hw
  obtain ⟨s, hs, stop, hstop, hlow, hhigh⟩ := (mem_instants (placed_of_closed hclosed)).mp hw
  obtain ⟨stop', hstop', hlt⟩ := hclosed s hs
  obtain rfl : stop = stop' := Option.some.inj (hstop.symm.trans hstop')
  rw [← hlow, ← hhigh]
  exact instant_lt hlt

theorem length_gaps_lt (hne : a.trims ≠ []) : a.gaps.length < a.trims.length := by
  have hlength : a.windows.length = a.trims.length :=
    (windows_perm a).length_eq.trans (List.length_map _)
  have hpos := List.length_pos_iff.mpr hne
  rw [gaps_eq_between (stops_of_placed (placed_of_closed hclosed)), ← hlength]
  cases hwindows : a.windows with
  | nil =>
    rw [hwindows, List.length_nil] at hlength
    omega
  | cons v rest => exact Nat.lt_succ_of_le (length_between_cons_le v rest)

/-- A gap begins behind the start of one part and ends before the end of one. -/
theorem exists_around_gap {gap : T × T} (hgap : gap ∈ a.gaps) :
    gap.1 < gap.2 ∧ (∃ s ∈ a.trims, s.start < gap.1) ∧
      ∃ s ∈ a.trims, ∃ stop, s.stop = some stop ∧ gap.2 < stop := by
  have hstops := stops_of_placed (placed_of_closed hclosed)
  have hlong {w : T × T} (hw : w ∈ a.windows) :
      ∃ s ∈ a.trims, s.start = w.1 ∧ s.stop = some w.2 ∧ w.1 < w.2 := by
    obtain ⟨s, hs, hstart, hstop⟩ := (mem_windows hstops).mp hw
    obtain ⟨stop, hstop', hlt⟩ := hclosed s hs
    obtain rfl : w.2 = stop := Option.some.inj (hstop.symm.trans hstop')
    exact ⟨s, hs, hstart, hstop, hstart ▸ hlt⟩
  rw [gaps_eq_between hstops] at hgap
  obtain ⟨front, v, w, behind, hwindows, rfl, hlt⟩ := consecutive_of_mem_between hgap
  obtain ⟨s, hs, hstart, -, hv⟩ := hlong (w := v) (by simp [hwindows])
  obtain ⟨u, hu, -, hstop, hw⟩ := hlong (w := w) (by simp [hwindows])
  exact ⟨hlt, ⟨s, hs, hstart ▸ hv⟩, u, hu, w.2, hstop, hw⟩

/-- The gaps follow one another. -/
theorem pairwise_gaps : a.gaps.Pairwise fun gap later => gap.2 < later.1 := by
  have hplaced := placed_of_closed hclosed
  have hinstants := pairwise_between (pairwise_instants hplaced) (lt_of_mem_instants hclosed)
  rw [between_instants hplaced, List.pairwise_map] at hinstants
  refine hinstants.imp_of_mem fun {gap later} hgap hlater h => lt_iff.mpr ?_
  have hleft := lt_iff.mp (exists_around_gap hclosed hgap).1
  have hright := lt_iff.mp (exists_around_gap hclosed hlater).1
  exact ⟨hleft.2.1, hright.1, h⟩

theorem disjoint_of_mem_gaps
    (hapart : a.trims.Pairwise fun s u => Disjoint s.inside u.inside) {gap : T × T}
    (hgap : gap ∈ a.gaps) {s : SourceTrim T} (hs : s ∈ a.trims) :
    Disjoint (Set.Icc (instant gap.1) (instant gap.2)) s.inside := by
  have hplaced := placed_of_closed hclosed
  have hmapped : ((a.trims.map SourceTrim.window).map (Prod.map instant instant)).Pairwise
      fun v w => Disjoint (Set.Ioo v.1 v.2) (Set.Ioo w.1 w.2) := by
    rw [List.pairwise_map, List.pairwise_map]
    refine hapart.imp_of_mem fun hs hu h => ?_
    rwa [SourceTrim.inside_eq (hplaced _ hs), SourceTrim.inside_eq (hplaced _ hu)] at h
  have hinstants := hmapped.perm ((windows_perm a).map _).symm fun h => h.symm
  have hmem : Prod.map instant instant s.window ∈ a.instants :=
    List.mem_map_of_mem ((windows_perm a).mem_iff.mpr (List.mem_map_of_mem hs))
  have hbetween : Prod.map instant instant gap ∈ between a.instants :=
    between_instants hplaced ▸ List.mem_map_of_mem hgap
  rw [SourceTrim.inside_eq (hplaced s hs)]
  exact disjoint_of_mem_between (pairwise_instants hplaced) (lt_of_mem_instants hclosed) hinstants
    hbetween hmem

/-- From the first start to the last end, each instant belongs to a part or to a gap. -/
theorem mem_span_or_mem_gap {low high : T}
    (hlow : IsLeast {x | ∃ s ∈ a.trims, s.start = x} low)
    (hhigh : IsGreatest {x | ∃ s ∈ a.trims, s.stop = some x} high) (x : EReal) :
    x ∈ Set.Icc (instant low) (instant high) ↔
      (∃ s ∈ a.trims, x ∈ s.span) ∨
        ∃ gap ∈ a.gaps, x ∈ Set.Icc (instant gap.1) (instant gap.2) := by
  have hfirst {s : SourceTrim T} (hs : s ∈ a.trims) : instant low ≤ instant s.start :=
    (le_iff.mp (hlow.2 ⟨s, hs, rfl⟩)).2.2
  have hlast {s : SourceTrim T} (hs : s ∈ a.trims) {stop : T} (hstop : s.stop = some stop) :
      instant stop ≤ instant high :=
    (le_iff.mp (hhigh.2 ⟨s, hs, hstop⟩)).2.2
  constructor
  · rintro ⟨hafter, hbefore⟩
    by_cases hshown : ∃ s ∈ a.trims, x ∈ s.span
    · exact .inl hshown
    · obtain ⟨s, hs, rfl⟩ := hlow.1
      obtain ⟨u, hu, hstop⟩ := hhigh.1
      have hend : x < instant high := by
        refine hbefore.lt_of_ne fun heq => hshown ⟨u, hu, ?_⟩
        obtain ⟨stop, hstop', hlong⟩ := hclosed u hu
        obtain rfl : stop = high := Option.some.inj (hstop'.symm.trans hstop)
        rw [SourceTrim.span_of_stop hstop, heq]
        exact ⟨(instant_lt hlong).le, le_rfl⟩
      have hfree (v : SourceTrim T) (hv : v ∈ a.trims) (stop : T) (hstop : v.stop = some stop)
          (hstart : instant v.start ≤ x) : instant stop ≤ x := by
        by_contra hx
        exact hshown ⟨v, hv, SourceTrim.span_of_stop hstop ▸ ⟨hstart, (not_le.mp hx).le⟩⟩
      obtain ⟨gap, hgap, hmem⟩ := exists_mem_gaps (placed_of_closed hclosed) ⟨s, hs, hafter⟩
        ⟨u, hu, high, hstop, hend⟩ hfree
      exact .inr ⟨gap, hgap, hmem.1, hmem.2.le⟩
  · rintro (⟨v, hv, hmem⟩ | ⟨gap, hgap, hmem⟩)
    · obtain ⟨stop, hstop, -⟩ := hclosed v hv
      exact ⟨(hfirst hv).trans hmem.1, (hmem.2 stop hstop).trans (hlast hv hstop)⟩
    · obtain ⟨-, ⟨v, hv, hstart⟩, w, hw, stop, hstop, hlt⟩ := exists_around_gap hclosed hgap
      exact ⟨((hfirst hv).trans (instant_lt hstart).le).trans hmem.1,
        (hmem.2.trans (instant_lt hlt).le).trans (hlast hw hstop)⟩

/-- The same parts in another order have the same gaps, if no two of them start at once. -/
theorem gaps_of_perm (hstarts : (a.trims.map SourceTrim.start).Nodup)
    (h : b.trims.Perm a.trims) : b.gaps = a.gaps := by
  have hclosed' : ∀ s ∈ b.trims, s.Closed := fun s hs => hclosed s (h.mem_iff.mp hs)
  have hfirsts : ((a.trims.map SourceTrim.window).map Prod.fst).Nodup := by
    rwa [List.map_map]
  have hwindows : a.windows = b.windows :=
    Ascends.mergeSort_eq_of_perm Prod.fst (h.symm.map SourceTrim.window) hfirsts
  rw [gaps_eq_between (stops_of_placed (placed_of_closed hclosed')),
    gaps_eq_between (stops_of_placed (placed_of_closed hclosed)), hwindows]

end

/-- The gaps between parts that end behind their starts. The window of the part that plays on
reaches from the first start to the last end, and parts that do not overlap tile it together with
the gaps. -/
theorem gaps_tile (hne : a.trims ≠ []) (hclosed : ∀ s ∈ a.trims, s.Closed) :
    (∀ gap ∈ a.gaps, gap.1 < gap.2) ∧
    (a.gaps.Pairwise fun gap later => gap.2 < later.1) ∧
    a.gaps.length < a.trims.length ∧
    (∃ low high, a.bounding.op = .trim ⟨low, some high⟩ ∧
      IsLeast {x | ∃ s ∈ a.trims, s.start = x} low ∧
      IsGreatest {x | ∃ s ∈ a.trims, s.stop = some x} high ∧
      (∀ gap ∈ a.gaps,
        Set.Icc (instant gap.1) (instant gap.2) ⊆ Set.Icc (instant low) (instant high)) ∧
      ((a.trims.Pairwise fun s u => Disjoint s.inside u.inside) →
        (∀ x, x ∈ Set.Icc (instant low) (instant high) ↔ (∃ s ∈ a.trims, x ∈ s.span) ∨
          ∃ gap ∈ a.gaps, x ∈ Set.Icc (instant gap.1) (instant gap.2)) ∧
        ∀ gap ∈ a.gaps, ∀ s ∈ a.trims,
          Disjoint (Set.Icc (instant gap.1) (instant gap.2)) s.inside)) ∧
    ((a.trims.map SourceTrim.start).Nodup →
      ∀ b : Assembly T, b.trims.Perm a.trims → b.gaps = a.gaps) := by
  obtain ⟨low, high, hop, hlow, hhigh⟩ := exists_bounding (placed_of_closed hclosed) hne
  have hcover := mem_span_or_mem_gap hclosed hlow hhigh
  refine ⟨fun gap hgap => (exists_around_gap hclosed hgap).1, pairwise_gaps hclosed,
    length_gaps_lt hclosed hne,
    ⟨low, high, hop, hlow, hhigh, fun gap hgap x hx => ?_, fun hapart => ⟨hcover, ?_⟩⟩,
    fun hstarts b h => gaps_of_perm hclosed hstarts h⟩
  · exact (hcover x).mpr (.inr ⟨gap, hgap, hx⟩)
  · exact fun gap hgap s hs => disjoint_of_mem_gaps hclosed hapart hgap hs

/-- Three parts with a gap on either side of the first. -/
def scatteredAssembly : Assembly Float where
  position := 5
  inputs := ["a", "x", "b", "y", "c"]
  output := none
  trims := [⟨2, "b", 15.25, some 20⟩, ⟨4, "c", 25, some 30.5⟩, ⟨0, "a", 0, some 10⟩]
  clips := ["x", "y"]

theorem closed_of_mem_scattered : ∀ s ∈ scatteredAssembly.trims, s.Closed := by
  simp only [scatteredAssembly, List.forall_mem_cons]
  exact ⟨⟨20, rfl, by decide +kernel⟩, ⟨30.5, rfl, by decide +kernel⟩,
    ⟨10, rfl, by decide +kernel⟩, List.forall_mem_nil _⟩

theorem gaps_tile_scattered :
    (scatteredAssembly.trims ≠ [] ∧ (∀ s ∈ scatteredAssembly.trims, s.Closed) ∧
      (scatteredAssembly.trims.Pairwise fun s u => Disjoint s.inside u.inside) ∧
      (scatteredAssembly.trims.map SourceTrim.start).Nodup) ∧
    (∀ x, x ∈ Set.Icc (instant (0 : Float)) (instant (30.5 : Float)) ↔
      (∃ s ∈ scatteredAssembly.trims, x ∈ s.span) ∨
        ∃ gap ∈ scatteredAssembly.gaps, x ∈ Set.Icc (instant gap.1) (instant gap.2)) ∧
    { scatteredAssembly with trims := scatteredAssembly.trims.reverse }.gaps =
      scatteredAssembly.gaps := by
  have hne : scatteredAssembly.trims ≠ [] := List.cons_ne_nil _ _
  have hplaced := placed_of_closed closed_of_mem_scattered
  have hapart : scatteredAssembly.trims.Pairwise fun s u => Disjoint s.inside u.inside := by
    have hordered : scatteredAssembly.trims.Pairwise fun s u =>
        s.window.2 ≤ u.window.1 ∨ u.window.2 ≤ s.window.1 := by decide +kernel
    refine hordered.imp_of_mem fun hs hu h => ?_
    obtain h | h := h
    · exact SourceTrim.disjoint_inside (hplaced _ hs) (hplaced _ hu) h
    · exact (SourceTrim.disjoint_inside (hplaced _ hu) (hplaced _ hs) h).symm
  have hstarts : (scatteredAssembly.trims.map SourceTrim.start).Nodup := by decide +kernel
  obtain ⟨-, -, -, ⟨low, high, hop, -, -, -, htile⟩, hperm⟩ :=
    gaps_tile hne closed_of_mem_scattered
  have hwindow : scatteredAssembly.bounding.op = .trim ⟨0, some 30.5⟩ := by rfl
  obtain ⟨rfl, rfl⟩ : low = 0 ∧ high = 30.5 := by simpa [hwindow, eq_comm] using hop
  exact ⟨⟨hne, closed_of_mem_scattered, hapart, hstarts⟩, (htile hapart).1,
    hperm hstarts _ (List.reverse_perm _)⟩

end Assembly

end Montage
