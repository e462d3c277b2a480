import Montage.Run.Basic

/-!
# What a transformation can come to

A transformation passes the task over for a name that is blocked, or lacks one of its files, or
takes a path to write to. With it in hand there may be nothing to do, or the task is none that has a
recipe, or the sidecar cannot be written, or the media tool is called, which fails or not. These
seven are all there is, and what holds of a transformation is read off them. What a task of a known
kind does is a fetch or such a transformation.
-/

namespace Montage

namespace Setup
variable {T : Type}

/-- With the clips noted that are not there, and the path taken that a step writes to. -/
def prepared (t : Task T) (step : StepFiles) (s : RunState T) : RunState T :=
  (s.note ((missingClips s.files t).map .missingClip)).take step.output

/-- The files that a step is given. -/
structure Given (t : Task T) (k : Kind) (position : Nat) (s : RunState T) (step : StepFiles) :
    Prop where
  unmissed : missedInsert? s.registry t = none
  inputs : inputsOf s.registry s.files position t = .ok step.inputs
  attachment : attachmentOf s.registry s.files position t = .ok step.attachment
  output : step.output = s.scratch.next k.wireName "mp4"

/-- A sidecar that could be written is there, and noted. -/
theorem writeSidecar_ok {position : Nat} {sidecar? : Option Sidecar} {s ready : RunState T}
    (h : writeSidecar position sidecar? s = (ready, .ok ())) :
    sidecar? = none ∧ ready = s ∨
      ∃ sidecar files, sidecar? = some sidecar ∧
        s.files.writeText sidecar.path sidecar.text = .ok files ∧
        ready = { s.take sidecar.path with files }.note [.wrote position sidecar.path] := by
  unfold writeSidecar at h
  split at h
  · exact .inl ⟨rfl, (Prod.mk.inj h).1.symm⟩
  · rename_i sidecar
    dsimp only at h
    split at h
    · rename_i files hwrite
      exact .inr ⟨sidecar, files, rfl, hwrite, (Prod.mk.inj h).1.symm⟩
    · exact absurd (congrArg Prod.snd h) nofun

theorem writeSidecar_of_write {p : Path} {text : String} {s : RunState T} {files : Files}
    (h : s.files.writeText p text = .ok files) (position : Nat) :
    writeSidecar position (some ⟨p, text⟩) s =
      ({ s.take p with files }.note [.wrote position p], .ok ()) := by
  have hwrite : (s.take p).files.writeText p text = .ok files := h
  unfold writeSidecar
  dsimp only
  rw [hwrite]

theorem writeSidecar_error {position : Nat} {sidecar? : Option Sidecar} {s out : RunState T}
    {e : Failure} (h : writeSidecar position sidecar? s = (out, .error e)) :
    ∃ sidecar cause, sidecar? = some sidecar ∧
      s.files.writeText sidecar.path sidecar.text = .error cause ∧ e = .io cause ∧
      out = s.take sidecar.path := by
  unfold writeSidecar at h
  split at h
  · exact absurd (congrArg Prod.snd h) nofun
  · rename_i sidecar
    dsimp only at h
    split at h
    · exact absurd (congrArg Prod.snd h) nofun
    · rename_i cause hwrite
      obtain ⟨rfl, he⟩ := Prod.mk.inj h
      exact ⟨sidecar, cause, rfl, hwrite, (Except.error.inj he).symm, rfl⟩

variable [TimeScale T] [Spelled T]

/-- A task of an unknown type is passed over. -/
theorem runTask_of_unknown (su : Setup T) {t : Task T} (hkind : t.kind? = none)
    (total position : Nat) (s : RunState T) :
    let skip : Skipped := ⟨position, t.op.typeName, "unknown operation type"⟩
    su.runTask total position t s =
      ({ s with skipped := s.skipped ++ [skip] }.note [.unknown skip], .ok ()) := by
  unfold runTask
  rw [hkind]

/-- What a transformation can come to, and the state that it leaves then. -/
inductive Transformed (su : Setup T) (t : Task T) (k : Kind) (position : Nat) (s : RunState T) :
    RunState T → Outcome → Prop
  | missed {name : String} (h : missedInsert? s.registry t = some name) :
      Transformed su t k position s s (.skipped ("'" ++ name ++ "' was never fetched"))
  | lacking {e : Failure} (hmissed : missedInsert? s.registry t = none)
      (h : inputsOf s.registry s.files position t = .error e ∨
        attachmentOf s.registry s.files position t = .error e) :
      Transformed su t k position s (s.note ((missingClips s.files t).map .missingClip))
        (.failed e)
  | pointless {step : StepFiles} {reason : String} (h : Given t k position s step)
      (hrecipe : t.op.recipe step su.font s.scratch.advance s.files = .skip reason) :
      Transformed su t k position s (prepared t step s) (.skipped reason)
  | refused {step : StepFiles} {e : Failure} (h : Given t k position s step)
      (hrecipe : t.op.recipe step su.font s.scratch.advance s.files = .refuse e) :
      Transformed su t k position s (prepared t step s) (stepFailure t position e)
  | unwritten {step : StepFiles} {i : Invocation} {sidecar : Sidecar} {cause : IoError}
      (h : Given t k position s step)
      (hrecipe : t.op.recipe step su.font s.scratch.advance s.files = .call i (some sidecar))
      (hwrite : s.files.writeText sidecar.path sidecar.text = .error cause) :
      Transformed su t k position s ((prepared t step s).take sidecar.path)
        (stepFailure t position (.io cause))
  | failed {step : StepFiles} {i : Invocation} {sidecar? : Option Sidecar} {ready : RunState T}
      {e : Failure} (h : Given t k position s step)
      (hrecipe : t.op.recipe step su.font s.scratch.advance s.files = .call i sidecar?)
      (hready : writeSidecar position sidecar? (prepared t step s) = (ready, .ok ()))
      (hcall : (su.tool.run ready.calls i ready.files).answer = .error e) :
      Transformed su t k position s (su.invoke position i ready).1 (stepFailure t position e)
  | done {step : StepFiles} {i : Invocation} {sidecar? : Option Sidecar} {ready : RunState T}
      (h : Given t k position s step)
      (hrecipe : t.op.recipe step su.font s.scratch.advance s.files = .call i sidecar?)
      (hready : writeSidecar position sidecar? (prepared t step s) = (ready, .ok ()))
      (hcall : (su.tool.run ready.calls i ready.files).answer = .ok ()) :
      Transformed su t k position s
        ((su.invoke position i ready).1.publish t.output step.output .mainChain) .done

theorem performed (su : Setup T) {t : Task T} {k : Kind} {position : Nat} {s : RunState T}
    {step : StepFiles} (h : Given t k position s step) :
    Transformed su t k position s (su.perform t position step (prepared t step s)).1
      (su.perform t position step (prepared t step s)).2 := by
  unfold perform
  split
  · rename_i reason hrecipe
    exact .pointless h hrecipe
  · rename_i e hrecipe
    exact .refused h hrecipe
  · rename_i i sidecar? hrecipe
    split
    · rename_i out e hwritten
      obtain ⟨sidecar, cause, rfl, hwrite, rfl, rfl⟩ := writeSidecar_error hwritten
      exact .unwritten h hrecipe hwrite
    · rename_i ready hready
      split
      · rename_i out e hcall
        obtain ⟨hout, hanswer⟩ := Prod.mk.inj hcall
        exact hout ▸ .failed h hrecipe hready hanswer
      · rename_i out hcall
        obtain ⟨hout, hanswer⟩ := Prod.mk.inj hcall
        exact hout ▸ .done h hrecipe hready hanswer

/-- It comes to one of these. -/
theorem transformed (su : Setup T) (t : Task T) (k : Kind) (position : Nat) (s : RunState T) :
    Transformed su t k position s (su.transform t k position s).1
      (su.transform t k position s).2 := by
  unfold transform
  split
  · rename_i name hmissed
    exact .missed hmissed
  · rename_i hmissed
    dsimp only
    split
    · rename_i e hinputs
      exact .lacking hmissed (.inl hinputs)
    · rename_i inputs hinputs
      split
      · rename_i e hattachment
        exact .lacking hmissed (.inr hattachment)
      · rename_i attachment hattachment
        have hgiven : Given t k position s
            ⟨inputs, attachment, s.scratch.next k.wireName "mp4"⟩ :=
          ⟨hmissed, hinputs, hattachment, rfl⟩
        exact performed su hgiven

/-- A transformation that is given its files is performed on them. -/
theorem transform_of_given (su : Setup T) {t : Task T} {k : Kind} {position : Nat} {s : RunState T}
    {step : StepFiles} (h : Given t k position s step) :
    su.transform t k position s = su.perform t position step (prepared t step s) := by
  obtain ⟨inputs, attachment, output⟩ := step
  obtain ⟨hmissed, hinputs, hattachment, rfl⟩ := h
  dsimp only at hinputs hattachment
  unfold transform prepared
  simp only [hmissed, RunState.note, hinputs, hattachment]

/-- With its files given, its sidecar written and its call answered, a transformation is done. -/
theorem transform_done (su : Setup T) {t : Task T} {k : Kind} {position : Nat}
    {s ready : RunState T} {step : StepFiles} {i : Invocation} {sidecar? : Option Sidecar}
    (h : Given t k position s step)
    (hrecipe : t.op.recipe step su.font s.scratch.advance s.files = .call i sidecar?)
    (hready : writeSidecar position sidecar? (prepared t step s) = (ready, .ok ()))
    (hcall : (su.tool.run ready.calls i ready.files).answer = .ok ()) :
    su.transform t k position s =
      ((su.invoke position i ready).1.publish t.output step.output .mainChain, .done) := by
  have hrecipe' : t.op.recipe step su.font (prepared t step s).scratch (prepared t step s).files =
      .call i sidecar? := hrecipe
  have hinvoke : su.invoke position i ready = ((su.invoke position i ready).1, .ok ()) :=
    Prod.ext rfl hcall
  rw [su.transform_of_given h]
  unfold perform
  rw [hrecipe']
  dsimp only
  rw [hready]
  dsimp only
  rw [hinvoke]

/-! ## A task of a known kind -/

/-- What a task of a known kind does. -/
def act (su : Setup T) (t : Task T) (k : Kind) (position : Nat) (s : RunState T) :
    RunState T × Outcome :=
  if k.isFetch then su.fetch t s else su.transform t k position s

theorem runTask_of_kind (su : Setup T) {k : Kind} (hkind : t.kind? = some k) (total position : Nat)
    (s : RunState T) :
    su.runTask total position t s =
      match su.act t k position (s.note [.started position total t]) with
      | (s, .done) => ({ s with steps := s.steps + 1 }.note [.completed position total t], .ok ())
      | (s, .skipped reason) =>
        let skip : Skipped := ⟨position, t.op.typeName, reason⟩
        ({ s with skipped := s.skipped ++ [skip] }.note [.skipped skip], .ok ())
      | (s, .failed e) => (s, .error e) := by
  unfold runTask act
  rw [hkind]
  dsimp only
  generalize (if k.isFetch = true then su.fetch t (s.note [.started position total t])
    else su.transform t k position (s.note [.started position total t])) = result
  obtain ⟨out, outcome⟩ := result
  cases outcome <;> rfl

end Setup

end Montage
