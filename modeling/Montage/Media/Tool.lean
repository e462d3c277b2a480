import Montage.Failure
import Montage.Log.Basic

/-!
# The media tool

What carries out an operation on media. Each call is an invocation: the artifacts it reads, the
place it writes to, and the arguments. How a tool behaves may depend on the number of the call, so
that any behaviour in one run is that of some tool.
-/

namespace Montage

structure Invocation where
  step : String
  inputs : List Path
  output : Path
  arguments : List String
  deriving DecidableEq, Repr

/-- What a call leaves behind. -/
structure ToolReply where
  answer : Except Failure Unit
  files : Files
  log : List Log.Line

structure MediaTool where
  name : String
  /-- The call with this number. -/
  run : Nat → Invocation → Files → ToolReply

end Montage
