import Montage.Proofs.Json.Rereading
import Montage.Proofs.Task.Operation
import Montage.Proofs.Task.Params

/-!
# Operations that are read again

Main statement: an operation that was made of a type name and parameters is made again of its own
type name and its own parameters, on every scale that has the words, as long as the numbers that
were given are finite. So is a task of its record. The parameters that were given may have stood in
a list or under another name, with sizes that are not whole and with fields left out; what is
written has every default filled in, and passes the same check.
-/

namespace Montage
open TimeScale

variable {T α : Type} [TimeScale T]

/-! ## Values of fields -/

theorem Reader.read_real {x : T} (h : isFinite x = true) :
    (Reader.real : Reader T T).read (Json.real x) = .ok x := by
  rw [Json.real, if_pos h]
  rfl

theorem rereads_real : (Reader.real : Reader T T).Rereads Json.real := by
  intro j x hj hread
  cases j with
  | number n =>
    obtain rfl : n.toReal = x := Except.ok.inj hread
    exact Reader.read_real (hj n (List.mem_singleton_self n))
  | _ => cases hread

theorem Coordinate.rereads : (Coordinate.reader : Reader T (Coordinate T)).Rereads json := by
  intro j c hj hread
  cases j with
  | number n =>
    obtain rfl : Coordinate.pixels n.toReal = c := Except.ok.inj hread
    have hfinite : isFinite n.toReal = true := hj n (List.mem_singleton_self n)
    show Coordinate.reader.read (Json.real n.toReal) = .ok (.pixels n.toReal)
    rw [Json.real, if_pos hfinite]
    rfl
  | text s =>
    obtain rfl : Coordinate.expr s = c := Except.ok.inj hread
    rfl
  | _ => cases hread

/-- A ratio that was read has no zero side, and its text is read as the same ratio. -/
theorem AspectRatio.rereads :
    (AspectRatio.reader : Reader T AspectRatio).Rereads fun r => .text r.text := by
  intro j r _ hread
  rcases exists_of_bind_eq_ok hread with ⟨s, -, hratio⟩
  split at hratio
  · next r' hr =>
    obtain rfl : r' = r := Except.ok.inj hratio
    rcases sides_of_ofText hr with ⟨hwidth, hheight⟩
    exact read_text hwidth hheight
  · cases hratio

/-! ## Members of fields -/

namespace Field.Rewrites
variable {r : Reader T α} {write : α → Json T} {name : String}

theorem defaulted (h : r.Rereads write) {a : α} (hdefault : r.read (write a) = .ok a) :
    (Field.defaulted name r a).Rewrites fun a => member name (write a) := by
  intro b hb
  rcases hb with ⟨j, hj, hread⟩ | hb | hb
  · exact .here (h j b hj hread)
  · obtain rfl : a = b := Absent.default.inj hb
    exact .here hdefault
  · cases hb

theorem refused {aliases : List String} (h : r.Rereads write) :
    (⟨name, aliases, r, .refused⟩ : Field T α).Rewrites fun a => member name (write a) := by
  intro a ha
  rcases ha with ⟨j, hj, hread⟩ | ha | ha
  · exact .here (h j a hj hread)
  · cases ha
  · cases ha

/-- A field that is empty is left out. -/
theorem optional (h : r.Rereads write) (hnull : ∀ a, r.read .null ≠ .ok a) :
    (Field.optional name r).Rewrites fun a? => memberIf name (a?.map write) := by
  intro a? ha
  cases a? with
  | none => exact .left rfl
  | some a =>
    rcases ha with ⟨j, hj, hread⟩ | ha | ha
    · exact .here (h.optional hnull hj hread)
    · cases ha
    · cases ha

theorem plainTexts :
    (Field.defaulted name (.list (plainText : Reader T String)) []).Rewrites (memberTexts name) :=
  fun ss _ => .plainTexts ss

theorem texts {write : α → String} (h : r.ReadsBack fun a => .text (write a)) :
    (Field.defaulted name r.list []).Rewrites fun as => memberTexts name (as.map write) :=
  fun as _ => .memberTexts h as

end Field.Rewrites

/-! ## Records

The names of the fields of a record differ, and each field is written as it is read. A chain of
fields starts from the last one. -/

theorem rereads_text : (plainText : Reader T String).Rereads Json.text :=
  readsBack_plainText.rereads

theorem AutoFrame.rereads : (record : Record T AutoFrame).reader.Rereads json := by
  apply Record.Rewrites.rereads
  · simp [record, Field.defaulted]
  · exact .field (.defaulted AspectRatio.rereads (AspectRatio.read_text (by decide) (by decide))) <|
      .of fun _ => rfl

theorem Concat.rereads : (record : Record T Concat).reader.Rereads json := by
  apply Record.Rewrites.rereads
  · simp [record, Field.defaulted]
  · exact .field (.texts readsBack_path) <| .of fun _ => rfl

theorem FetchImage.rereads : (record : Record T FetchImage).reader.Rereads json := by
  apply Record.Rewrites.rereads
  · simp [record, Field.defaulted]
  · exact .field (.defaulted rereads_text rfl) <|
      .field .plainTexts <|
      .field (.defaulted rereads_text rfl) <|
      .of fun _ _ _ => rfl

theorem VideoOverlay.rereads : (record : Record T (VideoOverlay T)).reader.Rereads json := by
  apply Record.Rewrites.rereads
  · simp [record, Field.required, Field.optional]
  · exact .field (.refused rereads_text) <|
      .field (.optional rereads_real nofun) <|
      .field (.refused rereads_real) <|
      .of fun _ _ _ => rfl

section
variable [HoldsWords T]

theorem rereads_pixels : (pixels : Reader T UInt32).Rereads Json.word := readsBack_pixels.rereads

theorem read_real_ofNat {n : Nat} (h : n < 2 ^ 32) :
    (Reader.real : Reader T T).read (Json.real (ofNat n)) = .ok (ofNat n) :=
  Reader.read_real (HoldsWords.finite_ofNat n h)

theorem TextOverlay.rereads : (record : Record T (TextOverlay T)).reader.Rereads json := by
  apply Record.Rewrites.rereads
  · simp [record, Field.defaulted, Field.optional]
  · exact .field (.optional Coordinate.rereads nofun) <|
      .field (.optional Coordinate.rereads nofun) <|
      .field (.defaulted rereads_pixels (readsBack_pixels 50)) <|
      .field (.defaulted rereads_pixels (readsBack_pixels 0)) <|
      .field (.optional rereads_text nofun) <|
      .field (.optional rereads_text nofun) <|
      .field (.defaulted readsBack_bool.rereads rfl) <|
      .field (.optional rereads_real nofun) <|
      .field (.optional rereads_real nofun) <|
      .field (.defaulted rereads_text rfl) <|
      .field (.defaulted rereads_pixels (readsBack_pixels 48)) <|
      .field (.defaulted rereads_text rfl) <|
      .field (.defaulted rereads_text rfl) <|
      .of fun _ _ _ _ _ _ _ _ _ _ _ _ _ => rfl

theorem Trim.rereads : (record : Record T (Trim T)).reader.Rereads json := by
  apply Record.Rewrites.rereads
  · simp [record, Field.defaulted, Field.optional]
  · exact .field (.optional rereads_real nofun) <|
      .field (.defaulted rereads_real (read_real_ofNat (by decide))) <|
      .of fun _ _ => rfl

theorem Resize.rereads : (record : Record T Resize).reader.Rereads json := by
  apply Record.Rewrites.rereads
  · simp [record, Field.defaulted, Field.optional]
  · exact .field (.optional rereads_pixels nofun) <|
      .field (.defaulted rereads_pixels (readsBack_pixels 1280)) <|
      .of fun _ _ => rfl

theorem Speed.rereads : (record : Record T (Speed T)).reader.Rereads json := by
  apply Record.Rewrites.rereads
  · simp [record, Field.defaulted]
  · exact .field (.defaulted rereads_real (read_real_ofNat (by decide))) <| .of fun _ => rfl

theorem SubtitleCue.rereads : (record : Record T (SubtitleCue T)).reader.Rereads json := by
  apply Record.Rewrites.rereads
  · simp [record, Field.defaulted, Field.optional]
  · exact .field (.defaulted rereads_text rfl) <|
      .field (.optional rereads_real nofun) <|
      .field (.defaulted rereads_real (read_real_ofNat (by decide))) <|
      .of fun _ _ _ => rfl

theorem Subtitles.rereads : (record : Record T (Subtitles T)).reader.Rereads json := by
  apply Record.Rewrites.rereads
  · simp [record, Field.defaulted]
  · exact .field (.defaulted SubtitleCue.rereads.list rfl) <| .of fun _ => rfl

theorem ImageOverlay.rereads : (record : Record T (ImageOverlay T)).reader.Rereads json := by
  apply Record.Rewrites.rereads
  · simp [record, Field.defaulted, Field.optional]
  · exact .field (.defaulted rereads_real (read_real_ofNat (by decide))) <|
      .field (.optional rereads_real nofun) <|
      .field (.optional rereads_real nofun) <|
      .field (.defaulted rereads_text rfl) <|
      .field (.refused rereads_text) <|
      .of fun _ _ _ _ _ => rfl

theorem ColorCorrection.rereads : (record : Record T (ColorCorrection T)).reader.Rereads json := by
  apply Record.Rewrites.rereads
  · simp [record, Field.defaulted]
  · exact .field (.defaulted rereads_real (read_real_ofNat (by decide))) <|
      .field (.defaulted rereads_real (read_real_ofNat (by decide))) <|
      .field (.defaulted rereads_real (read_real_ofNat (by decide))) <|
      .of fun _ _ _ => rfl

theorem Zoompan.rereads : (record : Record T (Zoompan T)).reader.Rereads json := by
  apply Record.Rewrites.rereads
  · simp [record, Field.defaulted]
  · exact .field (.defaulted rereads_real (read_real_ofNat (by decide))) <|
      .field (.defaulted rereads_real (Reader.read_real HoldsWords.finite_zoom)) <|
      .of fun _ _ => rfl

theorem FetchVideo.rereads : (record : Record T (FetchVideo T)).reader.Rereads json := by
  apply Record.Rewrites.rereads
  · simp [record, Field.defaulted]
  · exact .field (.defaulted rereads_text rfl) <|
      .field (.defaulted rereads_real (read_real_ofNat (by decide))) <|
      .field .plainTexts <|
      .field (.defaulted rereads_text rfl) <|
      .of fun _ _ _ _ => rfl

end

/-- Numbers of the exact scale are all finite. -/
theorem Exact.finite_json (j : Json Rat) : j.Finite := fun _ _ => rfl

/-! ## Operations -/

namespace Operation

theorem map_read_paramsJson {r : Record T α} {write : α → Json T} (h : r.reader.Rereads write)
    {make : α → Operation T} (hmake : ∀ p, (make p).paramsJson = write p) {params : Json T}
    (hparams : params.Finite) {op : Operation T} (hread : (r.read params).map make = .ok op) :
    (r.read op.paramsJson).map make = .ok op := by
  rcases exists_of_map_eq_ok hread with ⟨p, hp, rfl⟩
  have hagain : r.read (write p) = .ok p := h params p hparams hp
  rw [hmake, hagain]
  rfl

theorem paramsJson_ne_null {op : Operation T} {k : Kind} (h : op.kind? = some k) :
    op.paramsJson ≠ .null := by
  cases op with
  | unrecognized name params => exact absurd h.symm (Option.some_ne_none k)
  | _ p => exact Json.object_ne_null _

variable [HoldsWords T]

/-- The parameters of an operation are read as they were written. -/
theorem readParams_paramsJson {k : Kind} {params : Json T} (hparams : params.Finite)
    {op : Operation T} (h : readParams k params = .ok op) :
    readParams k op.paramsJson = .ok op := by
  cases k with
  | addTextOverlay => exact map_read_paramsJson TextOverlay.rereads (fun _ => rfl) hparams h
  | trim => exact map_read_paramsJson Trim.rereads (fun _ => rfl) hparams h
  | resize => exact map_read_paramsJson Resize.rereads (fun _ => rfl) hparams h
  | changeSpeed => exact map_read_paramsJson Speed.rereads (fun _ => rfl) hparams h
  | addSubtitles => exact map_read_paramsJson Subtitles.rereads (fun _ => rfl) hparams h
  | addImageOverlay => exact map_read_paramsJson ImageOverlay.rereads (fun _ => rfl) hparams h
  | autoFrame => exact map_read_paramsJson AutoFrame.rereads (fun _ => rfl) hparams h
  | colorCorrection => exact map_read_paramsJson ColorCorrection.rereads (fun _ => rfl) hparams h
  | concat => exact map_read_paramsJson Concat.rereads (fun _ => rfl) hparams h
  | zoompan => exact map_read_paramsJson Zoompan.rereads (fun _ => rfl) hparams h
  | fetchVideo => exact map_read_paramsJson FetchVideo.rereads (fun _ => rfl) hparams h
  | fetchImage => exact map_read_paramsJson FetchImage.rereads (fun _ => rfl) hparams h
  | overlayVideo => exact map_read_paramsJson VideoOverlay.rereads (fun _ => rfl) hparams h

/-- An operation is made again of its own parts. -/
theorem ofParts_paramsJson {typeName : String} {params : Json T} (hparams : params.Finite)
    {op : Operation T} (h : ofParts typeName params = .ok op) :
    ofParts op.typeName op.paramsJson = .ok op := by
  have hsome {params : Json T} (hne : params ≠ .null) (hparams : params.Finite)
      (h : ofParts typeName params = .ok op) : ofParts op.typeName op.paramsJson = .ok op := by
    rcases (ofParts_eq_ok_iff hne).mp h with ⟨hnone, rfl⟩ | ⟨k, -, hread, hflaw⟩
    · exact (ofParts_eq_ok_iff hne).mpr (Or.inl ⟨hnone, rfl⟩)
    · have hkind := kind?_of_readParams hread
      rw [typeName_of_kind? hkind, ofParts_eq_ok_iff (paramsJson_ne_null hkind)]
      exact Or.inr ⟨k, k.ofName?_wireName, readParams_paramsJson hparams hread, hflaw⟩
  by_cases hnull : params = .null
  · rw [hnull, ofParts_null] at h
    exact hsome (Json.object_ne_null []) (Json.finite_object.mpr (List.forall_mem_nil _)) h
  · exact hsome hnull hparams h

end Operation

/-! ## Tasks -/

namespace Task

theorem ofWire_eq_ok_iff {w : Wire T} {t : Task T} : ofWire w = .ok t ↔
    Operation.ofParts w.typeName w.params = .ok t.op ∧ t.output = w.output.filter (· ≠ "") ∧
      t.inputs = w.inputs.getD [] := by
  constructor
  · intro h
    rcases exists_of_bind_eq_ok h with ⟨op, hop, ht⟩
    obtain rfl := Except.ok.inj ht
    exact ⟨hop, rfl, rfl⟩
  · intro ⟨hop, houtput, hinputs⟩
    obtain ⟨op, output, inputs⟩ := t
    obtain rfl : output = _ := houtput
    obtain rfl : inputs = _ := hinputs
    rw [ofWire, hop]
    rfl

variable (T) in
/-- What was made of parts is made again of its own parts, and what was made of a record of its own
record. -/
theorem parts_and_wires_made_again [HoldsWords T] :
    (∀ (typeName : String) (params : Json T) (op : Operation T), params.Finite →
      Operation.ofParts typeName params = .ok op →
        Operation.ofParts op.typeName op.paramsJson = .ok op) ∧
    ∀ (w : Wire T) (t : Task T), w.params.Finite → ofWire w = .ok t → ofWire t.toWire = .ok t := by
  constructor
  · intro typeName params op hparams h
    exact Operation.ofParts_paramsJson hparams h
  · intro w t hparams h
    rcases ofWire_eq_ok_iff.mp h with ⟨hop, houtput, hinputs⟩
    apply ofWire_eq_ok_iff.mpr
    refine ⟨Operation.ofParts_paramsJson hparams hop, ?_, ?_⟩
    · show t.output = t.output.filter (· ≠ "")
      rw [houtput, Option.filter_filter]
      simp
    · show t.inputs = (if t.inputs.isEmpty then none else some t.inputs).getD []
      split_ifs with hempty
      · exact List.isEmpty_iff.mp hempty
      · rfl

/-- An overlay of an image with its parameters in a list, under the other name of its kind. -/
def listedWire : Wire Rat where
  typeName := " Image-Overlay"
  params := .list [.text "logo.png", .text "center", .null, .number (.int 7),
    .number (.real (1 / 2))]
  output := some ""
  inputs := some []

def listedTask : Task Rat :=
  ⟨.addImageOverlay ⟨"logo.png", "center", none, some 7, 1 / 2⟩, none, []⟩

theorem parts_and_wires_made_again_of_listedWire :
    listedWire.params.Finite ∧ ofWire listedWire = .ok listedTask ∧
      Operation.ofParts listedTask.op.typeName listedTask.op.paramsJson = .ok listedTask.op ∧
      ofWire listedTask.toWire = .ok listedTask := by
  have hfinite : listedWire.params.Finite := Exact.finite_json _
  have hop : Operation.ofParts listedWire.typeName listedWire.params = .ok listedTask.op := by
    apply (Operation.ofParts_eq_ok_iff (by simp [listedWire])).mpr
    have hflaw : listedTask.op.flaw?.isNone = true := by decide +kernel
    exact Or.inr ⟨.addImageOverlay, by decide +kernel, rfl, by simpa using hflaw⟩
  have hwire : ofWire listedWire = .ok listedTask := ofWire_eq_ok_iff.mpr ⟨hop, rfl, rfl⟩
  have hagain := parts_and_wires_made_again Rat
  exact ⟨hfinite, hwire, hagain.1 _ _ _ hfinite hop, hagain.2 _ _ hfinite hwire⟩

end Task

end Montage
