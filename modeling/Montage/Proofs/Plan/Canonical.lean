import Montage.Proofs.Json.Ordered
import Montage.Proofs.Plan.Settling
import Montage.Proofs.Task.Rereading

/-!
# Canonical tasks

The tasks that records are read as, in the form that reading gives them: names without blanks at
their ends, parameters that pass their checks, and, where no operation goes by the type, times and
cues that are settled. Such a task is read again from what it is written as.
-/

namespace Montage
open TimeScale

/-! ## Operations -/

/-- An operation as it is read from a record. -/
structure Operation.Canonical (op : Operation Rat) : Prop where
  flaw? : op.flaw? = none
  /-- The parameters of a known operation are read as they were written. -/
  reread : ∀ k, op.kind? = some k → Operation.readParams k op.paramsJson = .ok op
  clip : ∀ p, op = .overlayVideo p → Text.IsLabel p.clip
  unrecognized : ∀ name params, op = .unrecognized name params →
    Kind.ofName? name = none ∧ Text.IsLabel name ∧
      ∃ ms, params = .object ms ∧ params.Ordered ∧ Plan.settleCues (Plan.settleTimes ms) = ms

/-- Parameters that stand in a list in their order are read, and so they are read again. -/
theorem Trim.read_json (p : Trim Rat) : record.read p.json = .ok p := by
  have hread : (record : Record Rat (Trim Rat)).reader.read
      (.list [.real p.start, (p.stop.map Json.real).getD .null]) = .ok p := by
    obtain ⟨start, stop⟩ := p
    cases stop <;> rfl
  exact Trim.rereads _ _ (Exact.finite_json _) hread

theorem VideoOverlay.read_json (p : VideoOverlay Rat) : record.read p.json = .ok p := by
  have hread : (record : Record Rat (VideoOverlay Rat)).reader.read
      (.list [.real p.start, (p.stop.map Json.real).getD .null, .text p.clip]) = .ok p := by
    obtain ⟨start, stop, clip⟩ := p
    cases stop <;> rfl
  exact VideoOverlay.rereads _ _ (Exact.finite_json _) hread

theorem Kind.isLabel_wireName (k : Kind) : Text.IsLabel k.wireName := by
  cases k <;> exact ⟨by decide +kernel, by decide +kernel⟩

namespace Operation

theorem Canonical.of_trim {p : Trim Rat} (h : (trim p).flaw? = none) : (trim p).Canonical where
  flaw? := h
  reread := by
    intro k hkind
    obtain rfl : Kind.trim = k := Option.some.inj hkind
    exact congrArg (Except.map trim) p.read_json
  clip := by
    intro q hq
    cases hq
  unrecognized := by
    intro name params heq
    cases heq

theorem Canonical.of_overlayVideo {p : VideoOverlay Rat} (h : (overlayVideo p).flaw? = none)
    (hclip : Text.IsLabel p.clip) : (overlayVideo p).Canonical where
  flaw? := h
  reread := by
    intro k hkind
    obtain rfl : Kind.overlayVideo = k := Option.some.inj hkind
    exact congrArg (Except.map overlayVideo) p.read_json
  clip := by
    intro q hq
    cases hq
    exact hclip
  unrecognized := by
    intro name params heq
    cases heq

namespace Canonical
variable {op : Operation Rat}

theorem isLabel_typeName (h : op.Canonical) : Text.IsLabel op.typeName := by
  cases hkind : op.kind? with
  | some k =>
    rw [typeName_of_kind? hkind]
    exact k.isLabel_wireName
  | none =>
    obtain ⟨name, params, rfl⟩ := exists_unrecognized hkind
    exact (h.unrecognized name params rfl).2.1

/-- An operation is made again from its type and its parameters. -/
theorem ofParts_eq (h : op.Canonical) {ms : Members Rat} (hparams : op.paramsJson = .object ms) :
    ofParts op.typeName (.object ms) = .ok op := by
  rw [ofParts_eq_ok_iff (Json.object_ne_null ms)]
  cases hkind : op.kind? with
  | some k =>
    have hread := h.reread k hkind
    rw [hparams] at hread
    rw [typeName_of_kind? hkind]
    exact Or.inr ⟨k, k.ofName?_wireName, hread, h.flaw?⟩
  | none =>
    obtain ⟨name, params, rfl⟩ := exists_unrecognized hkind
    obtain rfl : params = .object ms := hparams
    exact Or.inl ⟨(h.unrecognized name _ rfl).1, rfl⟩

end Canonical

end Operation

/-! ## Written parameters -/

namespace Plan

theorem real_eq (t : Rat) : Json.real t = .number (.real t) := rfl

theorem settleCue_json (c : SubtitleCue Rat) : settleCue c.json = c.json := by
  have hsettled : Members.All IsSettled (member "start" (.real c.start) ++
      memberIf "end" (c.stop.map .real) ++ member "text" (.text c.text)) := by
    simp [Members.all_append, Members.all_member, Members.all_memberIf, IsSettled, timeKeys,
      real_eq]
  exact congrArg Json.object (settleTimes_ofList fun m hm => (hsettled m hm).2)

theorem settle_cues (cues : List (SubtitleCue Rat)) :
    settleCues (settleTimes (member "segments" (.list (cues.map SubtitleCue.json)))) =
      member "segments" (.list (cues.map SubtitleCue.json)) := by
  have hmap : (cues.map SubtitleCue.json).map settleCue = cues.map SubtitleCue.json := by
    rw [List.map_map]
    exact List.map_congr_left fun c _ => settleCue_json c
  show [("segments", Json.list ((cues.map SubtitleCue.json).map settleCue))] = _
  rw [hmap]
  rfl

end Plan

namespace Operation

theorem settle_paramsJson {op : Operation Rat} {k : Kind} (hkind : op.kind? = some k) :
    ∃ ms, op.paramsJson = .object ms ∧ Plan.settleCues (Plan.settleTimes ms) = ms := by
  cases op with
  | unrecognized name params => exact absurd hkind.symm (Option.some_ne_none k)
  | addSubtitles p => exact ⟨_, rfl, Plan.settle_cues p.cues⟩
  | _ p =>
    -- No other kind has cues, and what it holds under a name of a time is a number.
    refine ⟨_, rfl, Plan.settle_ofList ?_⟩
    simp [Members.all_append, Members.all_member, Members.all_memberIf, Members.all_memberTexts,
      Plan.IsSettled, Plan.timeKeys, Plan.real_eq]

variable [Spelled Rat]

theorem Canonical.settleClip_paramsJson {p : VideoOverlay Rat}
    (h : (overlayVideo p).Canonical) {ms : Members Rat}
    (hparams : (overlayVideo p).paramsJson = .object ms) : Plan.settleClip ms = ms := by
  obtain rfl := Json.object.inj hparams
  have hkeys : ((member "start_time" (.real p.start) ++ memberIf "end_time" (p.stop.map .real) ++
      member "clip" (.text p.clip) : Members Rat).map Prod.fst).Sublist
        ["start_time", "end_time", "clip"] := by
    cases p.stop <;> simp [member, memberIf]
  apply Plan.settleClip_of_get? (Members.ascending_ofList _) (h.clip p rfl)
  · rw [Members.get?_ofList (hkeys.nodup (by decide))]
    cases p.stop <;> rfl
  · intro m hm
    have hmem := hkeys.subset (List.mem_map.mpr ⟨m, Members.mem_ofList hm, rfl⟩)
    have hother : "stock_id" ∉ ["start_time", "end_time", "clip"] ∧
        "clip_id" ∉ ["start_time", "end_time", "clip"] := by decide
    exact ⟨fun hkey => hother.1 (hkey ▸ hmem), fun hkey => hother.2 (hkey ▸ hmem)⟩

/-- The parameters of an operation are settled when they are written. -/
theorem Canonical.settled {op : Operation Rat} (h : op.Canonical) :
    ∃ ms, op.paramsJson = .object ms ∧ Plan.settleCues (Plan.settleTimes ms) = ms ∧
      (Kind.ofName? op.typeName = some .overlayVideo → Plan.settleClip ms = ms) := by
  cases hkind : op.kind? with
  | none =>
    obtain ⟨name, params, rfl⟩ := exists_unrecognized hkind
    obtain ⟨hname, -, ms, rfl, -, hms⟩ := h.unrecognized name params rfl
    refine ⟨ms, rfl, hms, fun hoverlay => ?_⟩
    cases hname.symm.trans hoverlay
  | some k =>
    obtain ⟨ms, hparams, hms⟩ := settle_paramsJson hkind
    refine ⟨ms, hparams, hms, fun hoverlay => ?_⟩
    rw [typeName_of_kind? hkind, Kind.ofName?_wireName] at hoverlay
    obtain ⟨p, rfl⟩ := exists_overlayVideo (hkind.trans hoverlay)
    exact h.settleClip_paramsJson hparams

end Operation

/-! ## Order of members -/

theorem SubtitleCue.ordered_json (c : SubtitleCue Rat) : c.json.Ordered := by
  have hvalues : Members.All (fun m => m.2.Ordered) (member "start" (.real c.start) ++
      memberIf "end" (c.stop.map .real) ++ member "text" (.text c.text)) := by
    simp [Members.all_append, Members.all_member, Members.all_memberIf, Json.Ordered.real,
      Json.Ordered.text]
  exact .record hvalues

theorem Coordinate.ordered_json (c : Coordinate Rat) : c.json.Ordered := by
  cases c with
  | pixels x => exact .real x
  | expr s => exact .text s

theorem Operation.Canonical.ordered_paramsJson {op : Operation Rat} (h : op.Canonical) :
    op.paramsJson.Ordered := by
  cases op with
  | unrecognized name params =>
    obtain ⟨-, -, ms, -, hordered, -⟩ := h.unrecognized name params rfl
    exact hordered
  | addSubtitles p =>
    have hcues : (Json.list (p.cues.map SubtitleCue.json)).Ordered :=
      .list (List.forall_mem_map.mpr fun c _ => c.ordered_json)
    exact .record (Members.all_member.mpr hcues)
  | _ p =>
    refine .record ?_
    simp [Members.all_append, Members.all_member, Members.all_memberIf, Members.all_memberTexts,
      Json.Ordered.real, Json.Ordered.text, Json.Ordered.bool, Json.Ordered.texts,
      Coordinate.ordered_json, Json.word, Json.nat, Json.Ordered.number]

/-! ## Tasks -/

/-- A task as it is read from a record. -/
structure Task.Canonical (t : Task Rat) : Prop where
  op : t.op.Canonical
  output : ∀ name, t.output = some name → Text.IsLabel name
  inputs : ∀ name ∈ t.inputs, Text.IsLabel name

namespace Task
variable {T : Type} [TimeScale T]

/-- The members of a written task. -/
def members (t : Task T) : Members T :=
  member "type" (.text t.op.typeName) ++ member "params" t.op.paramsJson ++
    memberIf "output_id" (t.output.map .text) ++
    memberIf "inputs" (if t.inputs.isEmpty then none else some (.texts t.inputs))

theorem json_eq (t : Task T) : t.json = .object t.members := by
  unfold json toWire Wire.json members
  cases t.inputs.isEmpty <;> rfl

theorem nodup_members (t : Task T) : (t.members.map Prod.fst).Nodup := by
  have hkeys : (t.members.map Prod.fst).Sublist ["type", "params", "output_id", "inputs"] := by
    unfold members
    cases t.output <;> cases t.inputs.isEmpty <;> simp [member, memberIf]
  exact hkeys.nodup (by decide)

theorem get?_type (t : Task T) : t.members.get? "type" = some (.text t.op.typeName) := rfl

theorem get?_params (t : Task T) : t.members.get? "params" = some t.op.paramsJson := rfl

theorem get?_output (t : Task T) : t.members.get? "output_id" = t.output.map .text := by
  unfold members
  cases t.output <;> cases t.inputs.isEmpty <;> rfl

theorem get?_id (t : Task T) : t.members.get? "id" = none := by
  unfold members
  cases t.output <;> cases t.inputs.isEmpty <;> rfl

theorem get?_inputs (t : Task T) : t.members.get? "inputs" =
    if t.inputs.isEmpty then none else some (.texts t.inputs) := by
  unfold members
  cases t.output <;> cases t.inputs.isEmpty <;> rfl

end Task

namespace Plan

theorem typeName?_members {t : Task Rat} (h : Text.IsLabel t.op.typeName) :
    typeName? t.members = some t.op.typeName := by
  have htype : Members.firstOf? typeKeys t.members = some (.text t.op.typeName) :=
    Members.firstOf?_of_get? t.get?_type (Json.text_ne_null _) _
  simp [typeName?, htype, Json.asText?, h.isBlankText, h.trim]

/-- The text of a task spells its members in the order of their keys. -/
theorem ordered_json {t : Task Rat} (h : t.op.Canonical) : t.json.ordered = .record t.members := by
  have hvalues : Members.All (fun m => m.2.Ordered) t.members := by
    simp [Task.members, Members.all_append, Members.all_member, Members.all_memberIf,
      Json.Ordered.text, Json.Ordered.texts, h.ordered_paramsJson]
  rw [t.json_eq, Json.ordered_object fun m hm => (hvalues m hm).ordered_eq]

variable [Spelled Rat]

theorem mapM_asName?_texts {ss : List String} (h : ∀ s ∈ ss, Text.IsLabel s) :
    (ss.map (Json.text (T := Rat))).mapM asName? = some ss := by
  rw [mapM_eq_some_iff, List.map_map]
  exact List.map_congr_left fun s hs => asName?_text (h s hs)

theorem readInputs_members {t : Task Rat} (h : ∀ name ∈ t.inputs, Text.IsLabel name) :
    readInputs t.members = .ok t.inputs := by
  unfold readInputs
  rw [t.get?_inputs]
  cases hinputs : t.inputs with
  | nil => rfl
  | cons name names =>
    rw [hinputs] at h
    simp only [List.isEmpty_cons, Bool.false_eq_true, ↓reduceIte, Json.texts, mapM_asName?_texts h]

theorem output_members {t : Task Rat} (h : ∀ name, t.output = some name → Text.IsLabel name) :
    (Members.firstOf? outputKeys t.members).bind asName? = t.output := by
  have hget := t.get?_output
  cases hname : t.output with
  | none =>
    rw [hname] at hget
    simp [Members.firstOf?, outputKeys, hget, t.get?_id]
  | some name =>
    rw [hname] at hget
    have hfirst : Members.firstOf? outputKeys t.members = some (.text name) :=
      Members.firstOf?_of_get? hget (Json.text_ne_null name) _
    rw [hfirst, Option.bind_some, asName?_text (h name hname)]

theorem settleParams_members {t : Task Rat} (h : t.op.Canonical) :
    .object (settleParams t.op.typeName t.members) = t.op.paramsJson := by
  obtain ⟨ms, hparams, hms, hclip⟩ := h.settled
  have hget := t.get?_params
  rw [hparams] at hget
  have hfirst : Members.firstOf? paramsKeys t.members = some (.object ms) :=
    Members.firstOf?_of_get? hget (Json.object_ne_null ms) _
  have hsettle : settleParams t.op.typeName t.members = ms := by
    simp only [settleParams, hfirst]
    split_ifs with hoverlay
    · rw [hclip hoverlay, hms]
    · exact hms
  rw [hsettle, hparams]

/-- The members of a record may stand in any order. -/
theorem readRecord_record {ms : Members Rat} (h : (ms.map Prod.fst).Nodup) :
    readRecord (.record ms) = readRecord (.object ms) := by
  have hget (key : String) : Members.get? key (Members.ofList ms) = ms.get? key :=
    Members.get?_ofList h key
  simp only [Json.record, readRecord, typeName?, readInputs, settleParams, Members.firstOf?, hget]

/-- A task is read again from what it is written as. -/
theorem readRecord_ordered {t : Task Rat} (h : t.Canonical) :
    readRecord t.json.ordered = .ok t := by
  have hparams := settleParams_members h.op
  have hop := h.op.ofParts_eq hparams.symm
  rw [ordered_json h.op, readRecord_record t.nodup_members]
  simp only [readRecord, typeName?_members h.op.isLabel_typeName, readInputs_members h.inputs, hop,
    output_members h.output, bind, Except.bind]

end Plan

end Montage
