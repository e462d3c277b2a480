import Montage.Proofs.Plan.Assembly
import Montage.Plan.Repair

/-!
# Repairing a repaired plan

What each stage of the repair sets right stays right in the stages behind it, with one exception.
An assembly is left alone while there are overlays, and overlays are removed behind the stage that
looks at assemblies. If the rules allow no insertion at all, then the overlays of a plan are gone
from the repaired plan, and an assembly in it that was left alone is now repaired. Main statement:
this is the only way in which a second repair finds anything to do.
-/

namespace Montage

namespace Plan

/-! ## What the stages keep -/

section
variable {T : Type}

theorem Named.of_forall {ts us : Plan T} (h : Named ts)
    (hus : ∀ u ∈ us, u.isFetch = true → ∃ t ∈ ts, t.isFetch = true ∧ t.output = u.output) :
    Named us := by
  intro u hu hfetch
  obtain ⟨t, ht, htfetch, houtput⟩ := hus u hu hfetch
  exact houtput ▸ h t ht htfetch

variable [TimeScale T]

theorem Named.repairAssembly {ts : Plan T} (h : Named ts) : Named (repairAssembly ts).plan := by
  have hmended := mended_repairAssembly ts
  generalize Plan.repairAssembly ts = mended at hmended ⊢
  cases hmended with
  | assembled _ => exact h
  | filled _ _ _ =>
    apply h.of_forall
    intro u hu hfetch
    obtain hts | hoverlay | rfl := Assembly.mem_fillGaps hu
    · exact ⟨u, hts, hfetch, rfl⟩
    · rw [Task.isFetch_of_isKind (Assembly.isKind_of_mem_overlays hoverlay)] at hfetch
      exact absurd hfetch Bool.false_ne_true
    · exact absurd hfetch Bool.false_ne_true
  | @ordered a before behind t hs _ _ =>
    apply h.of_forall
    rw [hs.split]
    intro u hu hfetch
    obtain hu | hu := List.mem_append.mp hu
    · exact ⟨u, List.mem_append_left _ hu, hfetch, rfl⟩
    · obtain rfl | hu := List.mem_cons.mp hu
      · exact ⟨t, by simp, hfetch, rfl⟩
      · exact ⟨u, by simp [hu], hfetch, rfl⟩

theorem Named.clampDurations (r : InsertRules T) {ts : Plan T} (h : Named ts) :
    Named (clampDurations r ts).plan := by
  apply h.of_forall
  simp only [Plan.clampDurations, List.map_map, List.forall_mem_map]
  intro t ht hfetch
  exact ⟨t, ht, (Task.isFetch_congr (clampTask_kind? r t)).symm.trans hfetch,
    (clampTask_output r t).symm⟩

omit [TimeScale T] in
theorem Named.truncateInserts (n : Nat) {ts : Plan T} (h : Named ts) :
    Named (truncateInserts n ts).plan := by
  apply h.of_forall
  intro u hu hfetch
  obtain ⟨t, ht, hop, houtput⟩ := mem_truncateInserts hu
  exact ⟨t, ht, (Task.isFetch_congr (congrArg _ hop)).symm.trans hfetch, houtput.symm⟩

end

variable {r : InsertRules Rat}

theorem settled_of_no_overlay {ts : Plan Rat} (h : ts.count .overlayVideo = 0) :
    ∀ t ∈ ts, Settled r t := by
  intro t ht p hp
  have hkind : t.isKind .overlayVideo = true := by
    simp [Task.isKind, Task.kind?, hp, Operation.kind?]
  exact absurd hkind (List.countP_eq_zero.mp h t ht)

theorem Assembled.clampDurations {ts : Plan Rat} (h : Assembled ts) :
    Assembled (clampDurations r ts).plan := by
  by_cases hno : ts.count .overlayVideo = 0
  · rw [clampDurations_of_no_overlay r hno]
    exact h
  · exact assembled_of_overlay (by rwa [count_clampDurations])

/-- Truncation keeps an assembly in order unless it removes all overlays. -/
theorem Assembled.truncateInserts {n : Nat} {ts : Plan Rat} (h : Assembled ts)
    (hn : n ≠ 0 ∨ ts.count .overlayVideo = 0) : Assembled (truncateInserts n ts).plan := by
  by_cases hno : ts.count .overlayVideo = 0
  · rw [truncateInserts_of_count_le (by omega)]
    exact h
  · apply assembled_of_overlay
    rw [count_truncateInserts]
    omega

theorem settled_truncateInserts {n : Nat} {ts : Plan Rat} (h : ∀ t ∈ ts, Settled r t) :
    ∀ t ∈ (truncateInserts n ts).plan, Settled r t := by
  intro u hu
  obtain ⟨t, ht, hop, -⟩ := mem_truncateInserts hu
  intro p hp
  exact h t ht p (hop ▸ hp)

/-! ## What the stages report -/

section
variable {T : Type}

/-- The correction is one that the repair of an assembly alone reports. -/
inductive OfAssembly : Correction T → Prop
  | filledGaps {n : Nat} : OfAssembly (.filledGaps n)
  | reorderedConcat {inputs : List String} : OfAssembly (.reorderedConcat inputs)

theorem not_ofAssembly_nameFrom (used : List String) (n i : Nat) (ts : Plan T) :
    ∀ c ∈ (nameFrom used n i ts).corrections, ¬ OfAssembly c := by
  intro c hc
  obtain ⟨i, name, rfl⟩ := corrections_nameFrom used n i ts c hc
  exact nofun

theorem not_ofAssembly_truncateInserts (n : Nat) (ts : Plan T) :
    ∀ c ∈ (truncateInserts n ts).corrections, ¬ OfAssembly c := by
  unfold truncateInserts
  split_ifs
  · exact List.forall_mem_nil _
  · simp only [List.forall_mem_append, List.forall_mem_cons, List.forall_mem_map]
    exact ⟨⟨nofun, fun _ _ => nofun⟩, fun _ _ => nofun⟩

variable [TimeScale T]

theorem not_ofAssembly_clampDurations (r : InsertRules T) (ts : Plan T) :
    ∀ c ∈ (clampDurations r ts).corrections, ¬ OfAssembly c := by
  intro c hc
  rw [clampDurations, List.flatMap_map] at hc
  obtain ⟨t, -, hc⟩ := List.mem_flatMap.mp hc
  obtain ⟨p, -, rfl⟩ := corrections_clampTask r t c hc
  rintro ⟨⟩

theorem OfAssembly.mem_repairAssembly {r : InsertRules T} {ts : Plan T} {c : Correction T}
    (h : OfAssembly c) (hmem : c ∈ (ts.repair r).corrections) :
    c ∈ (Plan.repairAssembly ts.nameFetches.plan).corrections := by
  simp only [repair, Repaired.andThen, List.mem_append] at hmem
  obtain ((hname | hassembly) | hclamp) | htruncate := hmem
  · exact absurd h (not_ofAssembly_nameFrom _ _ _ _ _ hname)
  · exact hassembly
  · exact absurd h (not_ofAssembly_clampDurations _ _ _ hclamp)
  · exact absurd h (not_ofAssembly_truncateInserts _ _ _ htruncate)

/-- What is reported as filled is an assembly with gaps that joins nothing else, and it is filled.
-/
theorem exists_of_filledGaps {n : Nat} {ts : Plan T}
    (h : .filledGaps n ∈ (Plan.repairAssembly ts).corrections) :
    ∃ a, Assembly.find? ts = some a ∧ a.foreign?.isSome = false ∧ a.canFillGaps ts = true ∧
      (Plan.repairAssembly ts).plan = (a.fillGaps ts).plan := by
  have hmended := mended_repairAssembly ts
  generalize Plan.repairAssembly ts = mended at h hmended ⊢
  cases hmended with
  | assembled _ => exact absurd h List.not_mem_nil
  | @filled a _ _ _ hs hforeign hfill =>
    exact ⟨a, Assembly.find?_of_splitsAt hs, hforeign, hfill, rfl⟩
  | ordered _ _ _ => cases List.mem_singleton.mp h

end

/-! ## The repaired plan -/

variable (r) in
/-- The plan before its last stage. -/
def clamped (ts : Plan Rat) : Plan Rat :=
  (clampDurations r (repairAssembly (nameFetches ts).plan).plan).plan

theorem repair_plan (ts : Plan Rat) :
    (ts.repair r).plan = (truncateInserts r.maxInserts (clamped r ts)).plan := rfl

theorem named_repair (ts : Plan Rat) : Named (ts.repair r).plan :=
  (((named_nameFetches ts).repairAssembly).clampDurations r).truncateInserts r.maxInserts

theorem settled_repair (ts : Plan Rat) : ∀ t ∈ (ts.repair r).plan, Settled r t :=
  settled_truncateInserts (settled_clampDurations _)

theorem count_repair_le (ts : Plan Rat) :
    (ts.repair r).plan.count .overlayVideo ≤ r.maxInserts := by
  rw [repair_plan, count_truncateInserts]
  exact min_le_left _ _

theorem assembled_clamped (ts : Plan Rat) : Assembled (clamped r ts) :=
  (assembled_repairAssembly _).clampDurations

/-- A plan in which every stage finds its work done is left as it is. -/
theorem repair_of_normal {ts : Plan Rat} (hnamed : Named ts) (hassembled : Assembled ts)
    (hsettled : ∀ t ∈ ts, Settled r t) (hcount : ts.count .overlayVideo ≤ r.maxInserts) :
    ts.repair r = .clean ts := by
  simp only [repair, Repaired.andThen, nameFetches_of_named hnamed, Repaired.clean,
    repairAssembly_of_assembled hassembled, clampDurations_of_settled hsettled,
    truncateInserts_of_count_le hcount, List.append_nil]

/-- With its fetches named, a plan that is left as it is has its assembly in order. -/
theorem assembled_of_repair {ts : Plan Rat} (hnamed : Named ts) (h : ts.repair r = .clean ts) :
    Assembled ts := by
  have hnone : (ts.repair r).corrections = [] := congrArg Repaired.corrections h
  simp only [repair, Repaired.andThen, List.append_eq_nil_iff, nameFetches_of_named hnamed,
    Repaired.clean] at hnone
  exact assembled_of_corrections_eq_nil hnone.1.1.2

variable (r) in
/-- A repaired plan is repaired exactly if it is not so that the rules allow no insertion, overlays
were removed for that reason, and an assembly was uncovered that is not in order. -/
theorem repair_repair_iff (ts : Plan Rat) :
    (ts.repair r).plan.repair r = .clean (ts.repair r).plan ↔
      ¬ (r.maxInserts = 0 ∧ (clamped r ts).count .overlayVideo ≠ 0 ∧
        ¬ Assembled (ts.repair r).plan) := by
  constructor
  · intro h hbad
    exact hbad.2.2 (assembled_of_repair (named_repair ts) h)
  · intro h
    have hassembled : Assembled (ts.repair r).plan := by
      by_cases hzero : r.maxInserts = 0 ∧ (clamped r ts).count .overlayVideo ≠ 0
      · by_contra hassembled
        exact h ⟨hzero.1, hzero.2, hassembled⟩
      · exact (assembled_clamped ts).truncateInserts (by tauto)
    exact repair_of_normal (named_repair ts) hassembled (settled_repair ts) (count_repair_le ts)

/-- An assembly beside an overlay of one of its clips. -/
def coveredAssembly : Plan Rat :=
  [⟨.trim ⟨5, none⟩, some "a", [sourceName]⟩,
    ⟨.fetchVideo ⟨"city", [], 30, "landscape"⟩, some "x", []⟩,
    ⟨.overlayVideo ⟨10, some 15, "x"⟩, none, []⟩,
    ⟨.concat ⟨[]⟩, none, ["x", "a"]⟩]

/-- With no insertions allowed, the overlay is removed by one repair and the parts are put in order
by the next. -/
theorem repair_repair_ne_of_no_inserts :
    ((coveredAssembly.repair { InsertRules.default with maxInserts := 0 }).plan.repair
      { InsertRules.default with maxInserts := 0 }).corrections ≠ [] := by
  decide +kernel

end Plan

end Montage
