import Montage.Failure
import Montage.Media.Arguments
import Montage.Media.ClipList
import Montage.Media.Subtitles
import Montage.Media.Tool
import Montage.Scratch
import Montage.Task.Operation

/-!
# Recipes

What an operation asks of the media tool once the files it works on are known: one call, for which a
sidecar file may have to be written first, or nothing at all. What is no transformation has no
recipe.
-/

namespace Montage

structure StepFiles where
  /-- The first is the primary input. -/
  inputs : List Path
  /-- What is laid over the primary input. -/
  attachment : Option Path
  /-- A fresh path to write to. -/
  output : Path

/-- A file that the media tool reads besides its inputs. -/
structure Sidecar where
  path : Path
  text : String

inductive Recipe where
  | skip (reason : String)
  | refuse (e : Failure)
  | call (invocation : Invocation) (sidecar : Option Sidecar)

namespace Operation
variable {T : Type} [TimeScale T] [Spelled T]

/-- The recipe of a step whose primary input is `primary`. A sidecar takes the next path of the
scratch directory; relative clips are those of the working directory of `fs`. -/
def recipeFor (op : Operation T) (primary : Path) (step : StepFiles) (font : Path)
    (scratch : Scratch) (fs : Files) : Recipe :=
  let call (inputs : List Path) (arguments : List String) (sidecar : Option Sidecar) : Recipe :=
    .call ⟨op.typeName, inputs, step.output, arguments⟩ sidecar
  let refuse : Recipe := .refuse (.internal (op.typeName ++ " is not a transformation"))
  match op with
  | .addTextOverlay p =>
    if Text.isBlankText p.text then .skip "text is empty"
    else call [primary] (Arguments.addTextOverlay p font primary step.output) none
  | .trim p => call [primary] (Arguments.trim p primary step.output) none
  | .resize p => call [primary] (Arguments.resize p primary step.output) none
  | .changeSpeed p => call [primary] (Arguments.changeSpeed p primary step.output) none
  | .addSubtitles p =>
    if p.cues.isEmpty then .skip "no subtitle segments"
    else
      let file := scratch.next "subtitles" "srt"
      call [primary] (Arguments.addSubtitles file primary step.output)
        (some ⟨file, SubtitleCue.fileText p.cues⟩)
  | .addImageOverlay p =>
    match step.attachment with
    | none => .skip ("image '" ++ p.image ++ "' not found")
    | some image =>
      call [primary, image] (Arguments.addImageOverlay p image primary step.output) none
  | .autoFrame p => call [primary] (Arguments.autoFrame p primary step.output) none
  | .colorCorrection p => call [primary] (Arguments.colorCorrection p primary step.output) none
  | .concat _ =>
    let file := scratch.next "concat" "txt"
    call step.inputs (Arguments.concat file step.output)
      (some ⟨file, ClipList.fileText fs step.inputs⟩)
  | .zoompan p => call [primary] (Arguments.zoompan p primary step.output) none
  | .overlayVideo p =>
    match step.attachment with
    | none => .skip ("clip '" ++ p.clip ++ "' not found")
    | some clip => call [primary, clip] (Arguments.overlayVideo p clip primary step.output) none
  | .fetchVideo _ => refuse
  | .fetchImage _ => refuse
  | .unrecognized _ _ => refuse

def recipe (op : Operation T) (step : StepFiles) (font : Path) (scratch : Scratch) (fs : Files) :
    Recipe :=
  match step.inputs with
  | [] => .skip "no input clips"
  | primary :: _ => op.recipeFor primary step font scratch fs

end Operation

end Montage
