import Montage.Media.Toolbox
import Montage.Media.Tool

/-!
# The media program

The media tool as a program of its own. A call that ends well has to have written its output.
-/

namespace Montage

structure Runner where
  program : Path
  /-- In thousandths of a second. -/
  limit : Nat
  tail : Nat

namespace Runner

/-- The media program of a toolbox, under the settings of a run. -/
def ofToolbox (t : Toolbox) (settings : RunSettings) : Except Failure Runner := do
  return ⟨← t.require "ffmpeg", settings.toolTimeout * 1000, settings.diagnosticTail⟩

def origin : String := "cf_av::runner"

def call (r : Runner) (h : Host) (i : Invocation) (fs : Files) : ToolReply :=
  let reply := (Command.mk r.program i.arguments r.limit r.tail).execute h fs
  let log := ⟨.debug, origin, "ffmpeg " ++ " ".intercalate i.arguments⟩ :: reply.log
  match reply.answer with
  | .error e => ⟨.error e, reply.files, log⟩
  | .ok _ =>
    if reply.files.holds i.output then ⟨.ok (), reply.files, log⟩
    else
      ⟨.error (.tool "ffmpeg"
          ("exited successfully but wrote no output at " ++ i.output.text)),
        reply.files, log⟩

def tool (r : Runner) (h : Host) : MediaTool where
  name := "ffmpeg"
  run _ i fs := r.call h i fs

end Runner

end Montage
