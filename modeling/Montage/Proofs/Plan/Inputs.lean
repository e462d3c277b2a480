import Montage.Proofs.Json.Rekeying
import Montage.Proofs.Plan.Document
import Montage.Proofs.Time.Text

/-!
# Names of inputs

A record gives the names that its task reads as a list, or a single one as a text alone. The names
of a list are brought into the form of names, without blanks at their ends, and a blank one is
refused; a text alone is taken as it stands. Main statement: the two spellings of a single name come
to the same exactly if the text is a name as it stands or the record is refused anyway, and it is
through a text alone that a task gets an input that is no such name.

The inputs are read apart from the rest of a record, which is the same for both spellings.
-/

namespace Montage.Plan

section
variable {T : Type} [TimeScale T] [Spelled T]

/-- What a record is read as but for its inputs. -/
def readBare (ms : Members T) : Option (Task T) := do
  let typeName ← typeName? ms
  let op ← (Operation.ofParts typeName (.object (settleParams typeName ms))).toOption
  return ⟨op, (ms.firstOf? outputKeys).bind asName?, []⟩

theorem toOption_readRecord (ms : Members T) : (readRecord (.object ms)).toOption =
    (readInputs ms).toOption.bind fun names =>
      (readBare ms).map fun t => { t with inputs := names } := by
  cases hinputs : readInputs ms with
  | error e =>
    cases htype : typeName? ms with
    | none => simp [readRecord, htype, Except.toOption]
    | some typeName => simp [readRecord, htype, hinputs, bind, Except.bind, Except.toOption]
  | ok names =>
    cases htype : typeName? ms with
    | none => simp [readRecord, readBare, htype, Except.toOption]
    | some typeName =>
      cases hop : Operation.ofParts typeName (.object (settleParams typeName ms)) with
      | error flaw =>
        simp [readRecord, readBare, htype, hinputs, hop, bind, Except.bind, Except.toOption]
      | ok op =>
        simp [readRecord, readBare, htype, hinputs, hop, bind, Except.bind, Except.toOption]

theorem readBare_put_inputs (ms : Members T) (j : Json T) :
    readBare (ms.put "inputs" j) = readBare ms := by
  have hfirst (keys : List String) (hkeys : "inputs" ∉ keys) :
      (ms.put "inputs" j).firstOf? keys = ms.firstOf? keys :=
    Members.firstOf?_congr fun k hk => Members.get?_put_of_ne (ne_of_mem_of_not_mem hk hkeys) j ms
  have htype : typeName? (ms.put "inputs" j) = typeName? ms := by
    simp only [typeName?, hfirst typeKeys (by decide)]
  have hparams (typeName : String) :
      settleParams typeName (ms.put "inputs" j) = settleParams typeName ms := by
    simp only [settleParams, hfirst paramsKeys (by decide)]
  simp only [readBare, htype, hparams, hfirst outputKeys (by decide)]

/-- A text alone is the one name that is read. -/
theorem toOption_readRecord_alone (ms : Members T) (s : String) :
    (readRecord (.object (ms.put "inputs" (.text s)))).toOption =
      (readBare ms).map fun t => { t with inputs := [s] } := by
  rw [toOption_readRecord, readBare_put_inputs, readInputs, Members.get?_put_self]
  rfl

/-- In a list, the text is cut at its ends, or refused. -/
theorem toOption_readRecord_listed (ms : Members T) (s : String) :
    (readRecord (.object (ms.put "inputs" (.list [.text s])))).toOption =
      if Text.isBlankText s then none
      else (readBare ms).map fun t => { t with inputs := [Text.trim s] } := by
  rw [toOption_readRecord, readBare_put_inputs, readInputs, Members.get?_put_self]
  cases hblank : Text.isBlankText s <;> simp [asName?, hblank, Except.toOption]

end

/-- A record comes to the same with a single input as a text alone and in a list, or is refused with
both, exactly if the text is a name as it stands or the record is refused with it. The inputs of a
task are all such names exactly if none is a text alone that is not. -/
theorem inputs_alone_iff (ms : Members Float) :
    (∀ s, (readRecord (.object (ms.put "inputs" (.text s)))).toOption =
        (readRecord (.object (ms.put "inputs" (.list [.text s])))).toOption ↔
      (readRecord (.object (ms.put "inputs" (.text s)))).toOption = none ∨ Text.IsLabel s) ∧
    ∀ t, readRecord (.object ms) = .ok t →
      ((∀ name ∈ t.inputs, Text.IsLabel name) ↔
        ∀ s, ms.get? "inputs" = some (.text s) → Text.IsLabel s) := by
  refine ⟨fun s => ?_, fun t ht => ⟨fun h s hs => ?_, ?_⟩⟩
  · rw [toOption_readRecord_alone, toOption_readRecord_listed]
    cases hbare : readBare ms with
    | none => simp
    | some t =>
      simp only [Option.map_some, reduceCtorEq, false_or]
      constructor
      · intro h
        split_ifs at h with hblank
        have hinputs := congrArg Task.inputs (Option.some.inj h)
        exact ⟨(List.singleton_inj.mp hinputs).symm, by simpa using hblank⟩
      · intro hlabel
        simp [hlabel.isBlankText, hlabel.trim]
  · obtain ⟨ms', typeName, hms, -, hinputs, -⟩ := readRecord_inv ht
    obtain rfl := Json.object.inj hms
    rw [readInputs, hs] at hinputs
    have hnames : [s] = t.inputs := Except.ok.inj hinputs
    exact h s (hnames ▸ List.mem_singleton_self s)
  · obtain ⟨ms', typeName, hms, -, hinputs, -⟩ := readRecord_inv ht
    obtain rfl := Json.object.inj hms
    exact isLabel_of_readInputs Binary.isLabel_json hinputs

/-- A record that changes the size of the picture and does not say of what. -/
def resizeRecord : Members Float := [("type", .text "resize")]

/-- With blanks around it, a name is read as another one when it stands alone; a blank text is read
as a name when it stands alone, and refused in a list. -/
theorem resizeRecord_read_apart :
    (readRecord (.object (resizeRecord.put "inputs" (.text " a ")))).toOption ≠
        (readRecord (.object (resizeRecord.put "inputs" (.list [.text " a "])))).toOption ∧
      (readRecord (.object (resizeRecord.put "inputs" (.text " ")))).toOption ≠
        (readRecord (.object (resizeRecord.put "inputs" (.list [.text " "])))).toOption := by
  have hbare : readBare resizeRecord = some ⟨.resize ⟨1280, none⟩, none, []⟩ := rfl
  have htrim : Text.trim " a " = "a" := by decide +kernel
  simp only [toOption_readRecord_alone, toOption_readRecord_listed, hbare, htrim]
  refine ⟨fun h => ?_, fun h => ?_⟩
  · have hnames := congrArg (Option.map Task.inputs) h
    revert hnames
    decide +kernel
  · have hnone := congrArg Option.isSome h
    revert hnone
    decide +kernel

end Montage.Plan
