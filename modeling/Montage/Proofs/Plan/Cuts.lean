import Montage.Proofs.Plan.Overlays
import Montage.Proofs.Plan.Rereading
import Montage.Proofs.Plan.Windows

/-!
# Footage that was cut out

Where an assembly is rewritten, the source plays on between the parts, and what lies between them is
to stay out of sight. Main statement: an instant that no joined part shows is behind an overlay of
the repaired plan, but for three ways to come back into sight. A part that is not joined may show
it, for the gaps are taken between all parts; it may lie in a gap whose overlay is beyond the
greatest number; or it may lie in a gap that is longer than an overlay may be, behind the end of
the overlay. None of the three is hypothetical: the last plan below shows one.
-/

namespace Montage
open TimeScale

/-! ## Gaps -/

/-- The part shows the instant `x` of the source. -/
def SourceTrim.Shows (s : SourceTrim Rat) (x : Rat) : Prop :=
  s.start ≤ x ∧ ∀ stop ∈ s.stop, x < stop

instance (s : SourceTrim Rat) (x : Rat) : Decidable (s.Shows x) :=
  inferInstanceAs (Decidable (_ ∧ _))

namespace Assembly

variable {a : Assembly Rat} {x : Rat}

/-- The gaps between parts that are given in the order of their starts. -/
theorem gaps_of_pairwise (windows : List (Rat × Rat))
    (h : (a.trims.mapM fun s => s.stop.map fun stop => (s.start, stop)) = some windows)
    (hsorted : windows.Pairwise fun v w => v.1 ≤ w.1) : a.gaps = between windows := by
  simp only [gaps, h]
  rw [List.mergeSort_of_pairwise]
  exact hsorted.imp decide_eq_true

/-- An instant behind the first start and before the last stop lies in a gap, if no part shows
it. -/
theorem exists_mem_gaps_of_shows (h : a.gaps ≠ []) (hlow : ∃ s ∈ a.trims, s.start ≤ x)
    (hhigh : ∃ s ∈ a.trims, ∃ stop, s.stop = some stop ∧ x < stop)
    (hfree : ∀ s ∈ a.trims, ¬ s.Shows x) : ∃ gap ∈ a.gaps, gap.1 ≤ x ∧ x < gap.2 := by
  have hfree' (s : SourceTrim Rat) (hs : s ∈ a.trims) (stop : Rat) (hstop : s.stop = some stop)
      (hstart : s.start ≤ x) : stop ≤ x := by
    by_contra hx
    refine hfree s hs ⟨hstart, fun stop' hstop' => ?_⟩
    obtain rfl : stop = stop' := Option.some.inj (hstop.symm.trans hstop')
    exact not_le.mp hx
  simp only [← Exact.instant_le_instant, ← Exact.instant_lt_instant] at hlow hhigh hfree' ⊢
  exact exists_mem_gaps (placed_of_gaps h) hlow hhigh hfree'

end Assembly

/-! ## Ends under the rules -/

namespace InsertRules
variable {r : InsertRules Rat}

/-- An end on the grid is moved to an earlier time only if the overlay is too long, and then not
much further than the rules want. -/
theorem le_settledEnd (h : r.minDuration ≤ r.maxDuration) (start : Rat) {stop : Rat}
    (clip : String) (hgrid : Tenth.OnGrid stop) :
    stop ≤ r.settledEnd ⟨start, some stop, clip⟩ ∨ r.maxDuration < stop - start ∧
      start + r.maxDuration - 1 / 10 < r.settledEnd ⟨start, some stop, clip⟩ := by
  have habove := Tenth.le_above (start + r.minDuration)
  have hbelow := Tenth.lt_below (start + r.maxDuration)
  have hslack := Tenth.slack_lt
  simp only [settledEnd]
  split_ifs with hkept
  · exact Or.inl le_rfl
  · rw [beq_iff_eq, clampDuration_eq] at hkept
    have hlong (hmin : ¬ stop - start < r.minDuration) : r.maxDuration < stop - start := by
      by_contra hmax
      apply hkept
      rw [max_eq_left (not_lt.mp hmin), min_eq_left (not_lt.mp hmax)]
    simp only [endWithin]
    split_ifs with hoff hshort
    · rw [clampDuration_eq]
      by_cases hshort : stop - start < r.minDuration
      · rw [max_eq_right hshort.le, min_eq_left h]
        left
        linarith
      · have hmax := hlong hshort
        rw [min_eq_right (hmax.le.trans (le_max_left _ _))]
        right
        constructor <;> linarith
    · left
      apply hgrid.le_of_lt (Tenth.onGrid_above _)
      linarith
    · exact Or.inr ⟨hlong hshort, hbelow⟩

end InsertRules

/-- The overlay is before the instant `x`, but for the rounding of its window. -/
def VideoOverlay.Hides (p : VideoOverlay Rat) (x : Rat) : Prop :=
  p.start - 1 / 20 ≤ x ∧ ∃ stop ∈ p.stop, x ≤ stop + 1 / 20

instance (p : VideoOverlay Rat) (x : Rat) : Decidable (p.Hides x) :=
  inferInstanceAs (Decidable (_ ∧ _))

namespace Plan
variable {r : InsertRules Rat}

/-- The overlay of a gap hides the gap, or else its beginning. -/
theorem settled_cover_hides (h : r.minDuration ≤ r.maxDuration) {gap : Rat × Rat} (clip : String)
    {x : Rat} (hlow : gap.1 ≤ x) (hhigh : x < gap.2) :
    (settled r (Assembly.cover gap clip)).Hides x ∨
      r.maxDuration < Tenth.nearest gap.2 - Tenth.nearest gap.1 ∧
        Tenth.nearest gap.1 + r.maxDuration - 1 / 20 < x := by
  have hstart := Tenth.nearest_le gap.1
  have hstop := Tenth.le_nearest gap.2
  have hend := InsertRules.le_settledEnd h (Tenth.nearest gap.1) clip
    (Tenth.onGrid_nearest gap.2)
  by_cases hx : x ≤ r.settledEnd (Assembly.cover gap clip) + 1 / 20
  · left
    refine ⟨?_, r.settledEnd (Assembly.cover gap clip), rfl, hx⟩
    show Tenth.nearest gap.1 - 1 / 20 ≤ x
    linarith
  · right
    simp only [Assembly.cover, not_le] at hx
    rcases hend with hend | ⟨hlong, hend⟩
    · linarith
    · exact ⟨hlong, by linarith⟩

/-! ## The repaired plan -/

/-- Only overlays are removed for their number. -/
theorem isKind_of_mem_splitInserts {T : Type} {n : Nat} {ts : Plan T} {t : Task T}
    (h : t ∈ (splitInserts n ts).2) : t.isKind .overlayVideo = true := by
  fun_induction splitInserts n ts with
  | case1 => exact absurd h List.not_mem_nil
  | case2 u rest hu kept removed heq ih =>
    rw [heq] at ih
    rcases List.mem_cons.mp h with rfl | h
    · exact hu
    · exact ih h
  | case3 u rest _ n kept removed heq ih => exact ih (heq ▸ h)
  | case4 n u rest _ kept removed heq ih => exact ih (heq ▸ h)

/-- A task that reads nothing stays, if it is neither a fetch nor an overlay. -/
theorem mem_truncateInserts_of_reads_none {T : Type} {n : Nat} {ts : Plan T} {t : Task T}
    (h : t ∈ ts) (hinputs : t.inputs = []) (hfetch : t.isFetch = false)
    (hkind : t.isKind .overlayVideo = false) : t ∈ (truncateInserts n ts).plan := by
  by_cases hle : ts.count .overlayVideo ≤ n
  · rw [truncateInserts_of_count_le hle]
    exact h
  · have hkept : t ∈ (splitInserts n ts).1 := by
      rcases splitInserts_cases (n := n) h with hkept | hremoved
      · exact hkept
      · exact absurd (isKind_of_mem_splitInserts hremoved) (Bool.eq_false_iff.mp hkind)
    have hsame : dropInputs (names (splitInserts n ts).2) t = t := by
      rw [dropInputs, hinputs, List.filter_nil, ← hinputs]
    rw [truncateInserts_plan_of_lt hle]
    apply List.mem_filter.mpr
    constructor
    · exact List.mem_map.mpr ⟨t, hkept, hsame⟩
    · cases houtput : t.output <;> simp [orphan?, houtput, hfetch]

variable {ts before behind : Plan Rat} {a : Assembly Rat} {t : Task Rat}

/-- The source plays on in the repaired plan. -/
theorem bounding_mem_repair
    (hplan : (repairAssembly (nameFetches ts).plan).plan =
      (a.fillGaps (nameFetches ts).plan).plan) :
    a.bounding ∈ (ts.repair r).plan := by
  rw [repair_plan, clamped, hplan]
  apply mem_truncateInserts_of_reads_none _ rfl rfl rfl
  simp only [clampDurations, List.map_map]
  exact List.mem_map.mpr ⟨a.bounding, a.bounding_mem_fillGaps _, rfl⟩

/-- The overlays of the repaired plan are those over the gaps, the first ones of them, with their
ends where the rules want them. -/
theorem inserts_repair (hs : a.SplitsAt (nameFetches ts).plan before t behind)
    (hplan : (repairAssembly (nameFetches ts).plan).plan =
      (a.fillGaps (nameFetches ts).plan).plan) :
    inserts (ts.repair r).plan =
      ((List.zipWith Assembly.cover a.gaps a.clips).map (settled r)).take r.maxInserts := by
  rw [repair_plan, inserts_truncateInserts, clamped, inserts_clampDurations, hplan,
    hs.inserts_fillGaps]

/-! ## The assembly of a plan -/

/-- The task as it was before fetches were given names. -/
def unnamed {T : Type} (t : Task T) : Task T := if t.isFetch then { t with output := none } else t

theorem map_unnamed_nameFrom {T : Type} (used : List String) (n i : Nat) (ts : Plan T) :
    (nameFrom used n i ts).plan.map unnamed = ts.map unnamed := by
  induction ts generalizing used n i with
  | nil => rfl
  | cons t rest ih =>
    simp only [nameFrom]
    split_ifs with hname
    · have hfetch : t.isFetch = true := (Bool.and_eq_true_iff.mp hname).1
      have hsame (output : Option String) : unnamed { t with output } = { t with output := none } :=
        if_pos hfetch
      rw [List.map_cons, List.map_cons, ih, hsame, ← hsame t.output]
    · rw [List.map_cons, List.map_cons, ih]

theorem trimsFrom_cons_of_ne {T : Type} {t : Task T} (h : ∀ p, t.op ≠ .trim p) (i : Nat)
    (ts : Plan T) : Assembly.trimsFrom i (t :: ts) = Assembly.trimsFrom (i + 1) ts := by
  obtain ⟨op, output, inputs⟩ := t
  cases op with
  | trim p => exact absurd rfl (h p)
  | _ => rfl

theorem trimsFrom_map_unnamed {T : Type} (i : Nat) (ts : Plan T) :
    Assembly.trimsFrom i (ts.map unnamed) = Assembly.trimsFrom i ts := by
  induction ts generalizing i with
  | nil => rfl
  | cons t rest ih =>
    rw [List.map_cons, unnamed]
    split_ifs with hfetch
    · -- A fetch is no part of the source, whatever its name is.
      have hne (p : Trim T) : t.op ≠ .trim p := by
        intro hop
        simp [Task.isFetch, Task.kind?, hop, Operation.kind?, Kind.isFetch] at hfetch
      rw [trimsFrom_cons_of_ne hne, trimsFrom_cons_of_ne (t := { t with output := none }) hne, ih]
    · simp only [Assembly.trimsFrom, ih]

end Plan

/-- What the assembly `a` of a plan with names for all fetches is read from: the task `t` of the
plan itself, and the parts before it. -/
structure Assembly.ReadFrom (a : Assembly Rat) (ts : Plan Rat) (t : Task Rat) : Prop where
  find? : Assembly.find? ts.nameFetches.plan = some a
  joining : ts[a.position]? = some t
  kind : t.isKind .concat = true
  inputs : a.inputs = t.inputs
  trims : a.trims = trimsFrom 0 (ts.take a.position)

/-- A part that the assembly joins shows the instant `x`. -/
def Assembly.Keeps (a : Assembly Rat) (x : Rat) : Prop :=
  ∃ s ∈ a.trims, s.name ∈ a.inputs ∧ s.Shows x

/-- The ways for an instant that is not kept to come back into sight under the rules. -/
def Assembly.Exposes (a : Assembly Rat) (r : InsertRules Rat) (x : Rat) : Prop :=
  (∃ s ∈ a.trims, s.name ∉ a.inputs ∧ s.Shows x) ∨
    ∃ i gap, a.gaps[i]? = some gap ∧ gap.1 ≤ x ∧ x < gap.2 ∧
      (r.maxInserts ≤ i ∨ r.maxDuration < Tenth.nearest gap.2 - Tenth.nearest gap.1 ∧
        Tenth.nearest gap.1 + r.maxDuration - 1 / 20 < x)

namespace Plan

theorem exists_readFrom {ts : Plan Rat} {a : Assembly Rat}
    (h : Assembly.find? ts.nameFetches.plan = some a) : ∃ t, a.ReadFrom ts t := by
  rcases Assembly.exists_splitsAt h with ⟨before, u, behind, hs⟩
  have hkind : u.isKind .concat = true := (Bool.and_eq_true_iff.mp hs.joins).1
  have hsame {t : Task Rat} (hfetch : t.isFetch = false) : unnamed t = t := by
    simp [unnamed, hfetch]
  have hmap : ts.map unnamed = before.map unnamed ++ u :: behind.map unnamed := by
    rw [← map_unnamed_nameFrom ts.declaredNames 0 0 ts, ← nameFetches, hs.split, List.map_append,
      List.map_cons, hsame (Task.isFetch_of_isKind hkind)]
  have hposition : a.position = (before.map unnamed).length := by
    rw [hs.eq, List.length_map]
    rfl
  have hget : ts[a.position]?.map unnamed = some u := by
    rw [← List.getElem?_map, hmap, hposition]
    simp
  rcases Option.map_eq_some_iff.mp hget with ⟨t, ht, rfl⟩
  have hfetch : t.isFetch = false := by
    have hop : (unnamed t).op = t.op := by
      unfold unnamed
      split_ifs <;> rfl
    rw [← Task.isFetch_congr (congrArg Operation.kind? hop), Task.isFetch_of_isKind hkind]
    rfl
  rw [hsame hfetch] at hs hkind hmap
  refine ⟨t, h, ht, hkind, by rw [hs.eq]; rfl, ?_⟩
  rw [← trimsFrom_map_unnamed, List.map_take, hmap, hposition, List.take_left,
    trimsFrom_map_unnamed, hs.eq]
  rfl

/-- Each of the first gaps has its overlay. -/
theorem exists_settled_cover {r : InsertRules Rat} {a : Assembly Rat} {i n : Nat} {gap : Rat × Rat}
    (hgap : a.gaps[i]? = some gap) (hclips : a.gaps.length ≤ a.clips.length) (hi : i < n) :
    ∃ clip, settled r (Assembly.cover gap clip) ∈
      ((List.zipWith Assembly.cover a.gaps a.clips).map (settled r)).take n := by
  have hlength : i < a.clips.length :=
    ((List.getElem?_eq_some_iff.mp hgap).1).trans_le hclips
  refine ⟨a.clips[i], List.mem_of_getElem? (i := i) ?_⟩
  rw [List.getElem?_take_of_lt hi, List.getElem?_map, List.getElem?_zipWith, hgap,
    List.getElem?_eq_getElem hlength]
  rfl

variable (r : InsertRules Rat)

/-- If an assembly is rewritten, each instant that it does not keep is behind an overlay, or comes
back into sight in one of three ways. -/
theorem repair_hides_cuts (h : r.minDuration ≤ r.maxDuration) (ts : Plan Rat) {n : Nat}
    (hfilled : .filledGaps n ∈ (ts.repair r).corrections) :
    ∃ a t low high, Assembly.ReadFrom a ts t ∧ a.bounding.op = .trim ⟨low, some high⟩ ∧
      a.bounding ∈ (ts.repair r).plan ∧
      ∀ x, low ≤ x → x < high → ¬ a.Keeps x →
        (∃ p ∈ inserts (ts.repair r).plan, p.Hides x) ∨ a.Exposes r x := by
  rcases exists_of_filledGaps (OfAssembly.filledGaps.mem_repairAssembly hfilled) with
    ⟨a, hfind, -, hfill, hplan⟩
  rcases exists_readFrom hfind with ⟨t, hread⟩
  rcases Assembly.exists_splitsAt hfind with ⟨before, u, behind, hs⟩
  simp only [Assembly.canFillGaps, Bool.and_eq_true, decide_eq_true_eq] at hfill
  have hgaps : a.gaps ≠ [] := by simpa using hfill.1.1
  have htrims : a.trims ≠ [] := by simpa using hs.trims
  rcases Assembly.exists_bounding (Assembly.placed_of_gaps hgaps) htrims with
    ⟨low, high, hop, ⟨hlow, -⟩, hhigh, -⟩
  refine ⟨a, t, low, high, hread, hop, bounding_mem_repair hplan, fun x hxlow hxhigh hcut => ?_⟩
  by_cases hshown : ∃ s ∈ a.trims, s.Shows x
  · rcases hshown with ⟨s, hsmem, hshows⟩
    exact Or.inr (Or.inl ⟨s, hsmem, fun hname => hcut ⟨s, hsmem, hname, hshows⟩, hshows⟩)
  · have hfree : ∀ s ∈ a.trims, ¬ s.Shows x := fun s hs hx => hshown ⟨s, hs, hx⟩
    rcases hlow with ⟨s, hsmem, rfl⟩
    rcases hhigh with ⟨s', hsmem', hstop⟩
    rcases Assembly.exists_mem_gaps_of_shows hgaps ⟨s, hsmem, hxlow⟩
      ⟨s', hsmem', high, hstop, hxhigh⟩ hfree
      with ⟨gap, hgap, hstart, hend⟩
    rcases List.getElem?_of_mem hgap with ⟨i, hi⟩
    by_cases hnumber : i < r.maxInserts
    · rcases exists_settled_cover (r := r) hi hfill.1.2 hnumber with ⟨clip, hmem⟩
      rcases settled_cover_hides h clip hstart hend with hhides | hlong
      · exact Or.inl ⟨_, inserts_repair hs hplan ▸ hmem, hhides⟩
      · exact Or.inr (Or.inr ⟨i, gap, hi, hstart, hend, Or.inr hlong⟩)
    · exact Or.inr (Or.inr ⟨i, gap, hi, hstart, hend, Or.inl (not_lt.mp hnumber)⟩)

/-- Three parts of the source with a clip between each and the next. -/
def gappyPlan : Plan Rat :=
  [⟨.trim ⟨0, some 10⟩, some "a", [sourceName]⟩,
    ⟨.fetchVideo ⟨"city", [], 30, "landscape"⟩, some "x", []⟩,
    ⟨.trim ⟨15, some 20⟩, some "b", [sourceName]⟩,
    ⟨.fetchVideo ⟨"sea", [], 30, "landscape"⟩, some "y", []⟩,
    ⟨.trim ⟨25, some 30⟩, some "c", [sourceName]⟩,
    ⟨.concat ⟨[]⟩, none, ["a", "x", "b", "y", "c"]⟩]

/-- The assembly of the plan. -/
def gappyAssembly : Assembly Rat where
  position := 5
  inputs := ["a", "x", "b", "y", "c"]
  output := none
  trims := [⟨0, "a", 0, some 10⟩, ⟨2, "b", 15, some 20⟩, ⟨4, "c", 25, some 30⟩]
  clips := ["x", "y"]

theorem gaps_gappyAssembly : gappyAssembly.gaps = [(10, 15), (20, 25)] := by
  rw [Assembly.gaps_of_pairwise [(0, 10), (15, 20), (25, 30)] rfl (by decide +kernel)]
  decide +kernel

theorem find?_gappyPlan : Assembly.find? (nameFetches gappyPlan).plan = some gappyAssembly := rfl

theorem repairAssembly_gappyPlan : repairAssembly (nameFetches gappyPlan).plan =
    gappyAssembly.fillGaps (nameFetches gappyPlan).plan := by
  have hfill : gappyAssembly.canFillGaps (nameFetches gappyPlan).plan = true := by
    rw [Assembly.canFillGaps, gaps_gappyAssembly]
    decide +kernel
  simp only [repairAssembly, find?_gappyPlan]
  rw [if_neg (by decide +kernel), if_pos hfill]

theorem filledGaps_mem_repair_gappyPlan (r : InsertRules Rat) :
    .filledGaps gappyAssembly.overlays.length ∈ (gappyPlan.repair r).corrections := by
  simp only [repair, Repaired.andThen, repairAssembly_gappyPlan, List.mem_append]
  exact Or.inl (Or.inl (Or.inr List.mem_cons_self))

theorem inserts_repair_gappyPlan (r : InsertRules Rat) : inserts (gappyPlan.repair r).plan =
    ((List.zipWith Assembly.cover [(10, 15), (20, 25)] ["x", "y"]).map (settled r)).take
      r.maxInserts := by
  rcases Assembly.exists_splitsAt find?_gappyPlan with ⟨before, t, behind, hs⟩
  rw [inserts_repair hs (congrArg Repaired.plan repairAssembly_gappyPlan), gaps_gappyAssembly]
  rfl

/-- Rules with a single insertion. -/
def oneInsert : InsertRules Rat := { InsertRules.default with maxInserts := 1 }

theorem repair_hides_cuts_of_gappyPlan :
    oneInsert.minDuration ≤ oneInsert.maxDuration ∧
      .filledGaps gappyAssembly.overlays.length ∈ (gappyPlan.repair oneInsert).corrections ∧
      ∃ a t low high, Assembly.ReadFrom a gappyPlan t ∧ a.bounding.op = .trim ⟨low, some high⟩ ∧
        a.bounding ∈ (gappyPlan.repair oneInsert).plan ∧
        ∀ x, low ≤ x → x < high → ¬ a.Keeps x →
          (∃ p ∈ inserts (gappyPlan.repair oneInsert).plan, p.Hides x) ∨ a.Exposes oneInsert x := by
  have h : oneInsert.minDuration ≤ oneInsert.maxDuration := by decide +kernel
  have hfilled := filledGaps_mem_repair_gappyPlan oneInsert
  exact ⟨h, hfilled, repair_hides_cuts oneInsert h gappyPlan hfilled⟩

/-- With one insertion allowed nothing is laid over the second gap, and the source plays on over
it. -/
theorem repair_gappyPlan_exposes :
    (∀ t ∈ gappyPlan, t.op.flaw?.isNone) ∧
      (1 ≤ oneInsert.maxInserts ∧ 0 < oneInsert.minDuration ∧
        oneInsert.minDuration ≤ oneInsert.maxDuration) ∧
      .filledGaps gappyAssembly.overlays.length ∈ (gappyPlan.repair oneInsert).corrections ∧
      ⟨.trim ⟨0, some 30⟩, none, []⟩ ∈ (gappyPlan.repair oneInsert).plan ∧
      (∀ s ∈ Assembly.trimsFrom 0 gappyPlan, ¬ s.Shows 22) ∧
      ∀ p ∈ inserts (gappyPlan.repair oneInsert).plan, ¬ p.Hides 22 := by
  refine ⟨by decide +kernel, by decide +kernel, filledGaps_mem_repair_gappyPlan oneInsert, ?_,
    by decide +kernel, ?_⟩
  · exact bounding_mem_repair (congrArg Repaired.plan repairAssembly_gappyPlan)
  · rw [inserts_repair_gappyPlan]
    decide +kernel

end Plan

end Montage
