import Montage.Task.Basic
import Montage.Media.Tool
import Montage.Content.Source

/-!
# The trace of a run

A run is recorded as the list of what happened in it. The log is read off the trace. Positions of
tasks count from one.
-/

namespace Montage
open TimeScale

/-- A task that was passed over. -/
structure Skipped where
  position : Nat
  step : String
  reason : String
  deriving DecidableEq, Repr

inductive Event (T : Type) where
  | began (count : Nat) (source : Path) (tool : String)
  /-- A task whose type is not known. -/
  | unknown (s : Skipped)
  | started (position total : Nat) (t : Task T)
  | asked (r : Request T)
  /-- A clip to be joined that is not there. -/
  | missingClip (p : Path)
  /-- A file for the media tool was written. -/
  | wrote (position : Nat) (p : Path)
  /-- The media tool was called, with the files as they were then. -/
  | invoked (position : Nat) (i : Invocation) (files : Files)
  | completed (position total : Nat) (t : Task T)
  | skipped (s : Skipped)
  /-- A line of the log of the media tool, of the content source, or of the cleaning. -/
  | reported (line : Log.Line)
  | finished (output : Path) (steps skipped : Nat)
  | failed (e : Failure)

namespace Event

def origin : String := "cf_pipeline::executor"

/-- The lines of an event. What has taken time took `elapsed` seconds. -/
def log {T : Type} [TimeScale T] [Spelled T] (elapsed : String) : Event T → List Log.Line
  | began count source tool => [⟨.info, origin,
      "Running " ++ toString count ++ " task(s) on " ++ source.text ++ " with " ++ tool⟩]
  | unknown s => [⟨.warn, origin,
      "Skipping task #" ++ toString s.position ++ ": unknown operation '" ++ s.step ++ "'"⟩]
  | started position total t => [⟨.info, origin,
      "Starting #" ++ toString position ++ "/" ++ toString total ++ ": " ++ t.text⟩]
  | asked _ => []
  | missingClip p => [⟨.warn, origin, "Concat clip " ++ p.text ++ " does not exist"⟩]
  | wrote _ _ => []
  | invoked _ _ _ => []
  | completed position total t =>
    let share : T := ofNat position / ofNat total * ofNat 100
    [⟨.info, origin,
      "[" ++ Spelled.fixed 0 share ++ "%] Completed: " ++ t.text ++ " (" ++ elapsed ++ "s)"⟩]
  | skipped s => [⟨.warn, origin,
      "Skipping task #" ++ toString s.position ++ " (" ++ s.step ++ "): " ++ s.reason⟩]
  | reported line => [line]
  | finished output steps skips => [⟨.info, origin,
      "[100%] Wrote " ++ output.text ++ " in " ++ elapsed ++ "s (" ++ toString steps ++
        " step(s), " ++ toString skips ++ " skipped)"⟩]
  | failed e => [⟨.error, origin, "Plan failed: " ++ e.message⟩]

end Event

end Montage
