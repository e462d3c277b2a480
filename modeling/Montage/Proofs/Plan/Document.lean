import Montage.Proofs.Plan.Canonical

/-!
# Tasks of documents

Whatever a record is read as is a canonical task, so that the tasks of a document, written as a list
of records, are read again one by one and none is dropped. One way to write a record is left out: a
text that stands alone where a list of inputs is expected is taken as it stands, blanks included.
-/

namespace Montage

/-! ## Parameters -/

/-- The clip of an overlay comes from the member of that name. -/
theorem VideoOverlay.clip_of_read {ms : Members Rat} {p : VideoOverlay Rat}
    (h : record.read (.object ms) = .ok p) : ("clip", .text p.clip) ∈ ms := by
  obtain ⟨find, hbuild, hfind⟩ := Record.read_object_inv h
  obtain ⟨g, clip, hg, rfl, ⟨j, hfound, hread⟩ | hdefault | hdefault⟩ :=
    Record.build_field_inv hbuild
  · obtain ⟨g', stop, hg', rfl, -⟩ := Record.build_field_inv hg
    obtain ⟨g'', start, hg'', rfl, -⟩ := Record.build_field_inv hg'
    obtain rfl : VideoOverlay.mk = g'' := Except.ok.inj hg''
    obtain ⟨⟨key, j'⟩, hm, rfl, f, hf, hname, hkey⟩ := hfind "clip" j hfound
    have hnames : ∀ f ∈ (record : Record Rat (VideoOverlay Rat)).fields, f.names = [f.name] := by
      simp [record, Record.field, Record.of, Field.names, Field.required, Field.optional]
    obtain rfl : key = "clip" := by simpa [hnames f hf, hname] using hkey
    cases j' with
    | text s =>
      obtain rfl : s = clip := Except.ok.inj hread
      exact hm
    | _ => cases hread
  · cases hdefault
  · cases hdefault

namespace Plan

/-! ## Records -/

section
variable {T : Type}

theorem isLabel_of_typeName? {ms : Members T} {typeName : String}
    (h : typeName? ms = some typeName) : Text.IsLabel typeName := by
  simp only [typeName?, Option.bind_eq_bind, Option.bind_eq_some_iff] at h
  obtain ⟨j, -, s, -, hs⟩ := h
  split_ifs at hs with hblank
  obtain rfl := Option.some.inj hs
  exact .of_trim (by simpa using hblank)

variable [Spelled T]

/-- The names that a record reads, if it does not give them as a text alone. -/
theorem isLabel_of_readInputs (hspelled : ∀ x : T, Text.IsLabel (Spelled.json x))
    {ms : Members T} {names : List String} (h : readInputs ms = .ok names)
    (htext : ∀ s, ms.get? "inputs" = some (.text s) → Text.IsLabel s) :
    ∀ name ∈ names, Text.IsLabel name := by
  unfold readInputs at h
  split at h
  · obtain rfl := Except.ok.inj h
    exact fun name hname => absurd hname List.not_mem_nil
  · obtain rfl := Except.ok.inj h
    exact fun name hname => absurd hname List.not_mem_nil
  · next s hs =>
    obtain rfl := Except.ok.inj h
    intro name hname
    obtain rfl := List.mem_singleton.mp hname
    exact htext name hs
  · next items hitems =>
    split at h
    · next names' hnames =>
      obtain rfl := Except.ok.inj h
      intro name hname
      have hmem : some name ∈ items.map asName? :=
        mapM_eq_some_iff.mp hnames ▸ List.mem_map.mpr ⟨name, hname, rfl⟩
      obtain ⟨j, -, hj⟩ := List.mem_map.mp hmem
      exact isLabel_of_asName? hspelled hj
    · cases h
  · cases h

theorem readRecord_inv [TimeScale T] {j : Json T} {t : Task T} (h : readRecord j = .ok t) :
    ∃ ms typeName, j = .object ms ∧ typeName? ms = some typeName ∧
      readInputs ms = .ok t.inputs ∧
      Operation.ofParts typeName (.object (settleParams typeName ms)) = .ok t.op ∧
      t.output = (Members.firstOf? outputKeys ms).bind asName? := by
  cases j with
  | object ms =>
    cases htype : typeName? ms with
    | none => simp [readRecord, htype] at h
    | some typeName =>
      cases hinputs : readInputs ms with
      | error e => simp [readRecord, htype, hinputs, bind, Except.bind] at h
      | ok inputs =>
        cases hop : Operation.ofParts typeName (.object (settleParams typeName ms)) with
        | error flaw => simp [readRecord, htype, hinputs, hop, bind, Except.bind] at h
        | ok op =>
          simp only [readRecord, htype, hinputs, hop, bind, Except.bind] at h
          obtain rfl := Except.ok.inj h
          exact ⟨ms, typeName, rfl, htype, hinputs, hop, rfl⟩
  | _ => cases h

end

variable [Spelled Rat]

theorem settle_settleParams (typeName : String) (ms : Members Rat) :
    settleCues (settleTimes (settleParams typeName ms)) = settleParams typeName ms := by
  unfold settleParams
  exact settle_settle _

/-- The clip that an overlay is left with is a name, under the first of its keys. -/
theorem isLabel_of_settleParams (hspelled : ∀ x : Rat, Text.IsLabel (Spelled.json x))
    {typeName : String} (htype : Kind.ofName? typeName = some .overlayVideo) {ms : Members Rat}
    {clip : String} (h : ("clip", .text clip) ∈ settleParams typeName ms) : Text.IsLabel clip := by
  have htime : "clip" ∉ timeKeys := by decide
  have hcue : "clip" ≠ "segments" := by decide
  simp only [settleParams, htype, ↓reduceIte] at h
  obtain h | h := mem_settleCues h
  · obtain h | h := mem_settleTimes h
    · obtain ⟨s, hs, hlabel⟩ := mem_settleClip hspelled h rfl
      obtain rfl := Json.text.inj hs
      exact hlabel
    · exact absurd h htime
  · exact absurd h hcue

/-- The operation of a record. -/
theorem canonical_of_ofParts (hspelled : ∀ x : Rat, Text.IsLabel (Spelled.json x))
    {typeName : String} (hname : Text.IsLabel typeName) {ms : Members Rat}
    (hordered : (Json.object ms).Ordered) {op : Operation Rat}
    (h : Operation.ofParts typeName (.object (settleParams typeName ms)) = .ok op) :
    op.Canonical := by
  obtain ⟨hnone, rfl⟩ | ⟨k, hkind, hread, hflaw⟩ :=
    (Operation.ofParts_eq_ok_iff (Json.object_ne_null _)).mp h
  · refine ⟨rfl, fun k hkind => ?_, fun p hp => ?_, fun name params heq => ?_⟩
    · cases hkind
    · cases hp
    · cases heq
      exact ⟨hnone, hname, _, rfl, ordered_settleParams typeName hordered,
        settle_settleParams typeName ms⟩
  · have hop : op.kind? = some k := Operation.kind?_of_readParams hread
    refine ⟨hflaw, ?_, ?_, ?_⟩
    · intro k' hkind'
      obtain rfl : k = k' := Option.some.inj (hop.symm.trans hkind')
      exact Operation.readParams_paramsJson (Exact.finite_json _) hread
    · rintro p rfl
      obtain rfl : Kind.overlayVideo = k := Option.some.inj hop
      simp only [Operation.readParams] at hread
      obtain ⟨p', hp', heq⟩ := exists_of_map_eq_ok hread
      obtain rfl := Operation.overlayVideo.inj heq
      exact isLabel_of_settleParams hspelled hkind (VideoOverlay.clip_of_read hp')
    · rintro name params rfl
      cases hop

theorem canonical_of_readRecord (hspelled : ∀ x : Rat, Text.IsLabel (Spelled.json x))
    {j : Json Rat} (hordered : j.Ordered) {t : Task Rat} (h : readRecord j = .ok t)
    (htext : ∀ s, j.get? "inputs" = some (.text s) → Text.IsLabel s) : t.Canonical := by
  obtain ⟨ms, typeName, rfl, htype, hinputs, hop, houtput⟩ := readRecord_inv h
  refine ⟨canonical_of_ofParts hspelled (isLabel_of_typeName? htype) hordered hop, ?_,
    isLabel_of_readInputs hspelled hinputs htext⟩
  intro name hname
  rw [houtput] at hname
  obtain ⟨j, -, hj⟩ := Option.bind_eq_some_iff.mp hname
  exact isLabel_of_asName? hspelled hj

/-- The canonical tasks are exactly those that are read again from what they are written as. -/
theorem canonical_iff (hspelled : ∀ x : Rat, Text.IsLabel (Spelled.json x)) {t : Task Rat} :
    t.Canonical ↔ readRecord t.json.ordered = .ok t := by
  refine ⟨readRecord_ordered, fun h =>
    canonical_of_readRecord hspelled t.json.ordered_ordered h fun s hs => ?_⟩
  rw [t.json_eq, Json.get?_ordered_object t.nodup_members, t.get?_inputs] at hs
  split_ifs at hs
  · cases hs
  · cases hs

end Plan

end Montage
