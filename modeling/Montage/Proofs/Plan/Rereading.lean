import Montage.Plan.Repair
import Montage.Proofs.Plan.Backward
import Montage.Proofs.Plan.Between
import Montage.Proofs.Plan.Document

/-!
# Plans that are read again

A plan that was read from a document and written down again is read as the same plan, before its
repair and after it. Every stage of the repair keeps the tasks canonical, those that it makes itself
included: a name it gives is without blanks, an overlay it lays starts where a part of the source
ends, and the part of the source that plays on is longer than nothing.
-/

namespace Montage
open TimeScale

namespace Plan

/-- All tasks are such as they are read from records. -/
def Canonical (ts : Plan Rat) : Prop := ∀ t ∈ ts, t.Canonical

/-! ## Names -/

theorem isLabel_stockName (n : Nat) : Text.IsLabel (stockName n) := by
  have htext : (stockName n).toList = "stock_".toList ++ (toString n).toList := String.toList_append
  apply Text.IsLabel.of_forall
  · rw [htext]
    simp
  · rw [htext]
    intro c hc
    obtain hc | hc := List.mem_append.mp hc
    · exact Text.not_blank_of_all (by decide) c hc
    · exact Text.isBlank_of_mem_natText hc

theorem Canonical.nameFrom {ts : Plan Rat} (h : ts.Canonical) (used : List String) (n i : Nat) :
    Canonical (nameFrom used n i ts).plan := by
  induction ts generalizing used n i with
  | nil => exact List.forall_mem_nil _
  | cons t rest ih =>
    obtain ⟨ht, hrest⟩ := List.forall_mem_cons.mp h
    simp only [Plan.nameFrom]
    split_ifs
    · refine List.forall_mem_cons.mpr ⟨⟨ht.op, ?_, ht.inputs⟩, ih hrest _ _ _⟩
      rintro name hname
      obtain rfl := Option.some.inj hname
      exact isLabel_stockName _
    · exact List.forall_mem_cons.mpr ⟨ht, ih hrest used n (i + 1)⟩

end Plan

/-! ## Assemblies -/

namespace Operation

theorem trim_flaw?_eq_none {p : Trim Rat} : (trim p).flaw? = none ↔
    0 ≤ p.start ∧ ∀ stop, p.stop = some stop → p.start < stop := by
  have hzero : (zero : Rat) = 0 := rfl
  cases hstop : p.stop <;> simp [flaw?, hstop, hzero]

theorem overlayVideo_flaw?_eq_none {p : VideoOverlay Rat} : (overlayVideo p).flaw? = none ↔
    0 ≤ p.start ∧ Text.isBlankText p.clip = false := by
  have hzero : (zero : Rat) = 0 := rfl
  simp [flaw?, hzero]

end Operation

namespace Exact

theorem round_nonneg {x : Rat} (h : 0 ≤ x) : 0 ≤ Exact.round x := by
  rw [Exact.round, if_neg (not_lt.mpr h), Rat.le_floor_iff]
  push_cast
  linarith

end Exact

theorem Tenth.nearest_nonneg {t : Rat} (h : 0 ≤ t) : 0 ≤ Tenth.nearest t := by
  have hround : (0 : Rat) ≤ (Exact.round (t * 10) : Rat) :=
    Rat.intCast_nonneg.mpr (Exact.round_nonneg (by linarith))
  rw [Tenth.nearest_eq]
  exact div_nonneg hround (by norm_num)

namespace Assembly
variable {a : Assembly Rat} {ts before behind : Plan Rat} {t : Task Rat}

/-- Where there are gaps, all parts have both their ends on the line. -/
theorem placed_of_gaps (h : a.gaps ≠ []) : ∀ s ∈ a.trims, s.Placed := by
  intro s hs
  obtain ⟨stop, hstop⟩ := stops_of_gaps h s hs
  exact ⟨Exact.defined s.start, stop, hstop, Exact.defined stop⟩

/-- The parts of a plan whose trims pass their check. -/
theorem window_of_mem_trims (h : ts.Canonical) (hs : a.SplitsAt ts before t behind)
    {s : SourceTrim Rat} (hmem : s ∈ a.trims) :
    0 ≤ s.start ∧ ∀ stop, s.stop = some stop → s.start < stop := by
  have hmember : s.task ∈ ts := by
    rw [hs.split]
    exact List.mem_append_left _ (List.fst_mem_of_mem_zipIdx (hs.mem_zipIdx_of_mem_trims hmem))
  exact Operation.trim_flaw?_eq_none.mp (h s.task hmember).op.flaw?

theorem isLabel_of_mem_clips (h : ts.Canonical) (hs : a.SplitsAt ts before t behind)
    {name : String} (hname : name ∈ a.clips) : Text.IsLabel name := by
  obtain ⟨u, hu, -, houtput⟩ := hs.exists_of_mem_clips hname
  have hmember : u ∈ ts := by
    rw [hs.split]
    exact List.mem_append_left _ hu
  exact (h u hmember).output name houtput

theorem isLabel_of_mem_trimNames (h : ts.Canonical) (hs : a.SplitsAt ts before t behind)
    {name : String} (hname : name ∈ a.trimNames) : Text.IsLabel name := by
  obtain ⟨u, hu, houtput⟩ := Plan.mem_names.mp (hs.trimNames_subset hname)
  have hmember : u ∈ ts := by
    rw [hs.split]
    exact List.mem_append_left _ hu
  exact (h u hmember).output name houtput

theorem canonical_of_mem_overlays (h : ts.Canonical) (hs : a.SplitsAt ts before t behind)
    {u : Task Rat} (hu : u ∈ a.overlays) : u.Canonical := by
  obtain ⟨houtput, hinputs, gap, hgap, clip, hclip, hop⟩ := exists_of_mem_overlays hu
  obtain ⟨s, hmem, hstop⟩ := exists_of_mem_gaps hgap
  obtain ⟨hstart, hlonger⟩ := window_of_mem_trims h hs hmem
  have hlow : 0 ≤ gap.1 := hstart.trans (hlonger gap.1 hstop).le
  have hlabel := isLabel_of_mem_clips h hs hclip
  have hflaw : (overlay gap clip).op.flaw? = none :=
    Operation.overlayVideo_flaw?_eq_none.mpr ⟨Tenth.nearest_nonneg hlow, hlabel.isBlankText⟩
  refine ⟨hop ▸ .of_overlayVideo hflaw hlabel, fun name hname => ?_, fun name hname => ?_⟩
  · cases houtput.symm.trans hname
  · obtain rfl := List.mem_singleton.mp (hinputs hname)
    exact ⟨by decide, by decide⟩

/-- The part of the source that plays on is longer than nothing. -/
theorem canonical_bounding (h : ts.Canonical) (hs : a.SplitsAt ts before t behind)
    (hgaps : a.gaps ≠ []) : a.bounding.Canonical := by
  have hmember : t ∈ ts := by simp [hs.split]
  have htrims : a.trims ≠ [] := by simpa using hs.trims
  obtain ⟨low, high, hop, hlow, hhigh⟩ := exists_bounding (placed_of_gaps hgaps) htrims
  have hoperation : a.bounding.op.Canonical := by
    obtain ⟨s, hmem, rfl⟩ := hlow.1
    obtain ⟨stop, hstop⟩ := stops_of_gaps hgaps s hmem
    obtain ⟨hstart, hlonger⟩ := window_of_mem_trims h hs hmem
    refine hop ▸ .of_trim (Operation.trim_flaw?_eq_none.mpr ⟨hstart, fun stop' heq => ?_⟩)
    obtain rfl : high = stop' := Option.some.inj heq
    exact (hlonger stop hstop).trans_le (hhigh.2 ⟨s, hmem, hstop⟩)
  refine ⟨hoperation, fun name hname => ?_, fun name hname => absurd hname List.not_mem_nil⟩
  have houtput : a.bounding.output = t.output := by rw [hs.eq]; rfl
  exact (h t hmember).output name (houtput ▸ hname)

theorem canonical_fillGaps (h : ts.Canonical) (hs : a.SplitsAt ts before t behind)
    (hgaps : a.gaps ≠ []) : Plan.Canonical (a.fillGaps ts).plan := by
  intro u hu
  obtain hold | hoverlay | rfl := mem_fillGaps hu
  · exact h u hold
  · exact canonical_of_mem_overlays h hs hoverlay
  · exact canonical_bounding h hs hgaps

theorem canonical_inOrder (h : ts.Canonical) (hs : a.SplitsAt ts before t behind) :
    Plan.Canonical (before ++ { t with inputs := a.inOrder.inputs } :: behind) := by
  have hold (u : Task Rat) (hu : u ∈ before ++ t :: behind) : u.Canonical :=
    h u (hs.split ▸ hu)
  have ht : t.Canonical := hold t (by simp)
  intro u hu
  obtain hbefore | hrest := List.mem_append.mp hu
  · exact hold u (List.mem_append_left _ hbefore)
  · obtain rfl | hbehind := List.mem_cons.mp hrest
    · refine ⟨ht.op, ht.output, fun name hname => ?_⟩
      obtain htrim | hclip := (mem_alternate _ _).mp hname
      · exact isLabel_of_mem_trimNames h hs htrim
      · exact isLabel_of_mem_clips h hs hclip
    · exact hold u (List.mem_append_right _ (List.mem_cons_of_mem t hbehind))

end Assembly

namespace Plan

theorem Canonical.repairAssembly {ts : Plan Rat} (h : ts.Canonical) :
    Canonical (repairAssembly ts).plan := by
  have hmended := mended_repairAssembly ts
  generalize Plan.repairAssembly ts = mended at hmended ⊢
  cases hmended with
  | assembled _ => exact h
  | @filled a _ _ _ hs _ hfill =>
    have hgaps : a.gaps ≠ [] := by
      intro hnil
      simp [Assembly.canFillGaps, hnil] at hfill
    exact Assembly.canonical_fillGaps h hs hgaps
  | ordered hs _ _ => exact Assembly.canonical_inOrder h hs

/-! ## Durations and number -/

theorem Canonical.clampDurations (r : InsertRules Rat) {ts : Plan Rat} (h : ts.Canonical) :
    Canonical (clampDurations r ts).plan := by
  simp only [Plan.clampDurations, List.map_map]
  intro u hu
  obtain ⟨t, ht, rfl⟩ := List.mem_map.mp hu
  have hcanonical := h t ht
  rw [Function.comp_apply]
  obtain hsame | ⟨p, hop, hmoved⟩ := clampTask_cases r t
  · rw [hsame]
    exact hcanonical
  · -- Only the end is another, and no check looks at it.
    rw [hmoved]
    have hoperation := hop ▸ hcanonical.op
    exact ⟨.of_overlayVideo hoperation.flaw? (hoperation.clip p rfl), hcanonical.output,
      hcanonical.inputs⟩

theorem Canonical.truncateInserts (n : Nat) {ts : Plan Rat} (h : ts.Canonical) :
    Canonical (truncateInserts n ts).plan := by
  by_cases hle : ts.count .overlayVideo ≤ n
  · rw [truncateInserts_of_count_le hle]
    exact h
  · rw [truncateInserts_plan_of_lt hle]
    intro u hu
    obtain ⟨t, ht, rfl⟩ := List.mem_map.mp (List.mem_filter.mp hu).1
    have hcanonical := h t ((splitInserts_sublist n ts).mem ht)
    exact ⟨hcanonical.op, hcanonical.output, fun name hname =>
      hcanonical.inputs name (List.mem_filter.mp hname).1⟩

theorem Canonical.repair (r : InsertRules Rat) {ts : Plan Rat} (h : ts.Canonical) :
    Canonical (ts.repair r).plan :=
  (((h.nameFrom ts.declaredNames 0 0).repairAssembly).clampDurations r).truncateInserts
    r.maxInserts

/-! ## Documents -/

/-- The records of a document. -/
def records : Json Rat → List (Json Rat)
  | .list items => items
  | .object ms => ((Members.firstOf? listKeys ms).bind Json.asList?).getD []
  | _ => []

theorem ordered_of_mem_records {j : Json Rat} (h : j.Ordered) :
    ∀ record ∈ records j, record.Ordered := by
  cases j with
  | list items => exact h.of_mem_list
  | object ms =>
    rw [records]
    cases hlist : (Members.firstOf? listKeys ms).bind Json.asList? with
    | none => exact List.forall_mem_nil _
    | some items =>
      obtain ⟨v, hv, hitems⟩ := Option.bind_eq_some_iff.mp hlist
      obtain ⟨key, -, hkey, -⟩ := Members.exists_of_firstOf? hv
      cases v with
      | list items' =>
        obtain rfl := Option.some.inj hitems
        exact (h.of_get? hkey).of_mem_list
      | _ => cases hitems
  | _ => exact List.forall_mem_nil _

variable [Spelled Rat]

theorem ofJson_eq_ok {j : Json Rat} {reading : Reading Rat} (h : ofJson j = .ok reading) :
    reading = readRecords 0 (records j) := by
  cases j with
  | list items => exact (Except.ok.inj h).symm
  | object ms =>
    rw [ofJson] at h
    split at h
    · next items hitems =>
      simp only [records, hitems, Option.getD_some]
      exact (Except.ok.inj h).symm
    · cases h
  | _ => cases h

theorem canonical_readRecords (hspelled : ∀ x : Rat, Text.IsLabel (Spelled.json x))
    {js : List (Json Rat)} (n : Nat) (hordered : ∀ j ∈ js, j.Ordered)
    (htext : ∀ j ∈ js, ∀ s, j.get? "inputs" = some (.text s) → Text.IsLabel s) :
    Canonical (readRecords n js).tasks := by
  induction js generalizing n with
  | nil => exact List.forall_mem_nil _
  | cons j js ih =>
    obtain ⟨hj, hjs⟩ := List.forall_mem_cons.mp hordered
    obtain ⟨hfirst, hrest⟩ := List.forall_mem_cons.mp htext
    have hcanonical := ih (n + 1) hjs hrest
    simp only [readRecords]
    split
    · next t ht =>
      exact List.forall_mem_cons.mpr ⟨canonical_of_readRecord hspelled hj ht hfirst, hcanonical⟩
    · exact hcanonical

theorem readRecords_map_ordered {ts : Plan Rat} (h : ts.Canonical) (n : Nat) :
    readRecords n (ts.map fun t => t.json.ordered) = ⟨ts, []⟩ := by
  induction ts generalizing n with
  | nil => rfl
  | cons t ts ih =>
    obtain ⟨hfirst, hrest⟩ := List.forall_mem_cons.mp h
    rw [List.map_cons, readRecords, readRecord_ordered hfirst, ih hrest]

/-- A canonical plan is read from what it is written as, and nothing is dropped. -/
theorem Canonical.ofJson_ordered {ts : Plan Rat} (h : ts.Canonical) :
    ofJson ts.json.ordered = .ok ⟨ts, []⟩ := by
  rw [Plan.json, Json.ordered, Json.orderedItems_eq, List.map_map]
  exact congrArg Except.ok (readRecords_map_ordered h 0)

/-- The tasks of a document that gives no inputs as a text with blanks. -/
theorem canonical_of_ofJson (hspelled : ∀ x : Rat, Text.IsLabel (Spelled.json x)) {j : Json Rat}
    (hordered : j.Ordered) {reading : Reading Rat} (h : ofJson j = .ok reading)
    (htext : ∀ record ∈ records j, ∀ s, record.get? "inputs" = some (.text s) → Text.IsLabel s) :
    reading.tasks.Canonical := by
  rw [ofJson_eq_ok h]
  exact canonical_readRecords hspelled 0 (ordered_of_mem_records hordered) htext

end Plan

end Montage
