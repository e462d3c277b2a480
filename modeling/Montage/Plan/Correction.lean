import Montage.Time.Text

/-!
# Corrections

What the repair of a plan changes. Every change is reported as one of these, in the order in which
they are made. Positions count from zero.
-/

namespace Montage

inductive Correction (T : Type) where
  | assignedOutput (position : Nat) (name : String)
  | clampedDuration (clip : String) (start : T) (stop : Option T) (stop' : T)
  | truncatedInserts (kept removed : Nat)
  | removedOrphanFetch (name : String)
  | droppedReference (name : String)
  | filledGaps (overlays : Nat)
  | reorderedConcat (inputs : List String)
  | synthesizedInserts (count : Nat)
  deriving BEq, Repr

def Correction.message {T : Type} [Spelled T] : Correction T → String
  | .assignedOutput i name => "task #" ++ toString (i + 1) ++ " named '" ++ name ++ "'"
  | .clampedDuration clip start stop stop' =>
    "overlay of '" ++ clip ++ "' at " ++ Spelled.plain start ++ "s: end " ++
      (match stop with
        | some t => Spelled.plain t ++ "s -> "
        | none => "set to ") ++ Spelled.plain stop' ++ "s"
  | .truncatedInserts kept removed =>
    "kept " ++ toString kept ++ " insert(s), removed " ++ toString removed
  | .removedOrphanFetch name => "removed unused fetch '" ++ name ++ "'"
  | .droppedReference name => "dropped reference to removed output '" ++ name ++ "'"
  | .filledGaps overlays =>
    "rewrote trim+concat assembly as " ++ toString overlays ++ " overlay(s) on the source"
  | .reorderedConcat inputs => "concat inputs set to [" ++ ", ".intercalate inputs ++ "]"
  | .synthesizedInserts count => "added " ++ toString count ++ " fetch+overlay pair(s) from slots"

/-- A plan after some corrections. -/
structure Repaired (T P : Type) where
  plan : P
  corrections : List (Correction T)

namespace Repaired
variable {T P : Type}

/-- Nothing to correct. -/
def clean (p : P) : Repaired T P := ⟨p, []⟩

/-- Followed by a further stage of the repair. -/
def andThen (r : Repaired T P) (stage : P → Repaired T P) : Repaired T P :=
  let next := stage r.plan
  ⟨next.plan, r.corrections ++ next.corrections⟩

end Repaired

end Montage
