import Mathlib.Tactic.SplitIfs
import Montage.Media.Recipe
import Montage.Proofs.Media.Arguments

/-!
# What a recipe reads and writes

Whatever the operation, a call writes to the output of its step and reads the primary input, with
the attachment behind it for an overlay; only joined clips are all read, by way of a list. The files
that a call names as its inputs are the ones that its arguments open. A sidecar takes the next path
of the scratch directory.
-/

namespace Montage

namespace Operation
variable {T : Type}

/-- The inputs of a call, given the files of its step. -/
def Uses (op : Operation T) (step : StepFiles) (inputs : List Path) : Prop :=
  match op with
  | .concat _ => inputs = step.inputs
  | .overlayVideo _ => ∃ primary clip, step.inputs.head? = some primary ∧
      step.attachment = some clip ∧ inputs = [primary, clip]
  | .addImageOverlay _ => ∃ primary image, step.inputs.head? = some primary ∧
      step.attachment = some image ∧ inputs = [primary, image]
  | _ => ∃ primary, step.inputs.head? = some primary ∧ inputs = [primary]

/-- They are among the files of the step. -/
theorem Uses.mem {op : Operation T} {step : StepFiles} {inputs : List Path} {x : Path}
    (h : op.Uses step inputs) (hx : x ∈ inputs) : x ∈ step.inputs ∨ step.attachment = some x := by
  have hhead {primary : Path} (h : step.inputs.head? = some primary) : primary ∈ step.inputs :=
    List.mem_of_head? h
  have hpair {a b : Path} (h : x ∈ [a, b]) : x = a ∨ x = b := by simpa using h
  unfold Uses at h
  split at h
  · exact .inl (h ▸ hx)
  · obtain ⟨primary, clip, hprimary, hclip, rfl⟩ := h
    rcases hpair hx with rfl | rfl
    · exact .inl (hhead hprimary)
    · exact .inr hclip
  · obtain ⟨primary, image, hprimary, himage, rfl⟩ := h
    rcases hpair hx with rfl | rfl
    · exact .inl (hhead hprimary)
    · exact .inr himage
  · obtain ⟨primary, hprimary, rfl⟩ := h
    obtain rfl := List.mem_singleton.mp hx
    exact .inl (hhead hprimary)

/-- The files that the media tool is told to open. Clips to be joined stand in a list. -/
def opens (op : Operation T) (scratch : Scratch) (inputs : List Path) : List Path :=
  match op with
  | .concat _ => [scratch.next "concat" "txt"]
  | _ => inputs

variable [TimeScale T]

/-- The file that a call needs besides its inputs. -/
def sidecar? (op : Operation T) (inputs : List Path) (scratch : Scratch) (fs : Files) :
    Option Sidecar :=
  match op with
  | .addSubtitles p => some ⟨scratch.next "subtitles" "srt", SubtitleCue.fileText p.cues⟩
  | .concat _ => some ⟨scratch.next "concat" "txt", ClipList.fileText fs inputs⟩
  | _ => none

theorem path_of_sidecar? {op : Operation T} {inputs : List Path} {scratch : Scratch} {fs : Files}
    {sidecar : Sidecar} (h : op.sidecar? inputs scratch fs = some sidecar) :
    sidecar.path = scratch.next "subtitles" "srt" ∨ sidecar.path = scratch.next "concat" "txt" := by
  unfold sidecar? at h
  split at h
  · left
    rw [← Option.some.inj h]
  · right
    rw [← Option.some.inj h]
  · exact absurd h nofun

/-- What an operation calls for, given the files of its step. -/
structure CallsFor (op : Operation T) (given : StepFiles) (scratch : Scratch) (fs : Files)
    (i : Invocation) (sidecar? : Option Sidecar) : Prop where
  step : i.step = op.typeName
  inputs : op.Uses given i.inputs
  output : i.output = given.output
  reads : Arguments.Reads i.arguments (op.opens scratch i.inputs) i.output
  sidecar : sidecar? = op.sidecar? i.inputs scratch fs

theorem calls_of_recipe [Spelled T] {op : Operation T} {step : StepFiles} {font : Path}
    {scratch : Scratch} {fs : Files} {i : Invocation} {sidecar? : Option Sidecar}
    (h : op.recipe step font scratch fs = .call i sidecar?) :
    op.CallsFor step scratch fs i sidecar? := by
  unfold recipe at h
  cases hinputs : step.inputs with
  | nil => simp [hinputs] at h
  | cons primary rest =>
    have hprimary : step.inputs.head? = some primary := by rw [hinputs, List.head?_cons]
    simp only [hinputs] at h
    -- The inputs and the arguments of each call are built apart; what the arguments open is known
    -- for each of them.
    cases op with
    | trim p =>
      obtain ⟨rfl, rfl⟩ := Recipe.call.inj h
      exact ⟨rfl, ⟨primary, hprimary, rfl⟩, rfl, Arguments.reads_trim _ _ p, rfl⟩
    | resize p =>
      obtain ⟨rfl, rfl⟩ := Recipe.call.inj h
      exact ⟨rfl, ⟨primary, hprimary, rfl⟩, rfl, Arguments.reads_filtered _ _ _, rfl⟩
    | changeSpeed p =>
      obtain ⟨rfl, rfl⟩ := Recipe.call.inj h
      exact ⟨rfl, ⟨primary, hprimary, rfl⟩, rfl, Arguments.reads_changeSpeed _ _ p, rfl⟩
    | autoFrame p =>
      obtain ⟨rfl, rfl⟩ := Recipe.call.inj h
      exact ⟨rfl, ⟨primary, hprimary, rfl⟩, rfl, Arguments.reads_filtered _ _ _, rfl⟩
    | colorCorrection p =>
      obtain ⟨rfl, rfl⟩ := Recipe.call.inj h
      exact ⟨rfl, ⟨primary, hprimary, rfl⟩, rfl, Arguments.reads_colorCorrection _ _ p, rfl⟩
    | zoompan p =>
      obtain ⟨rfl, rfl⟩ := Recipe.call.inj h
      exact ⟨rfl, ⟨primary, hprimary, rfl⟩, rfl, Arguments.reads_filtered _ _ _, rfl⟩
    | addTextOverlay p =>
      simp only [recipeFor] at h
      split_ifs at h
      obtain ⟨rfl, rfl⟩ := Recipe.call.inj h
      exact ⟨rfl, ⟨primary, hprimary, rfl⟩, rfl, Arguments.reads_filtered _ _ _, rfl⟩
    | addSubtitles p =>
      simp only [recipeFor] at h
      split_ifs at h
      obtain ⟨rfl, rfl⟩ := Recipe.call.inj h
      exact ⟨rfl, ⟨primary, hprimary, rfl⟩, rfl, Arguments.reads_filtered _ _ _, rfl⟩
    | overlayVideo p =>
      simp only [recipeFor] at h
      split at h
      · exact absurd h nofun
      · rename_i clip hclip
        obtain ⟨rfl, rfl⟩ := Recipe.call.inj h
        exact ⟨rfl, ⟨primary, clip, hprimary, hclip, rfl⟩, rfl,
          Arguments.reads_overlayVideo _ _ p clip, rfl⟩
    | addImageOverlay p =>
      simp only [recipeFor] at h
      split at h
      · exact absurd h nofun
      · rename_i image himage
        obtain ⟨rfl, rfl⟩ := Recipe.call.inj h
        exact ⟨rfl, ⟨primary, image, hprimary, himage, rfl⟩, rfl,
          Arguments.reads_addImageOverlay _ _ p image, rfl⟩
    | concat p =>
      obtain ⟨rfl, rfl⟩ := Recipe.call.inj h
      exact ⟨rfl, rfl, rfl, Arguments.reads_concat _ _, rfl⟩
    | fetchVideo p => exact absurd h nofun
    | fetchImage p => exact absurd h nofun
    | unrecognized name params => exact absurd h nofun

end Operation

end Montage
