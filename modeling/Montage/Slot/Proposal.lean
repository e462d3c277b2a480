import Montage.Failure
import Montage.Log.Basic
import Montage.Time.Stamp
import Montage.Json.Reader

/-!
# Proposals

Windows for insertions that someone suggests. A proposal is never taken as it is: `Slot/Ranking`
moves it into the rules first.
-/

namespace Montage
open TimeScale

structure Proposal (T : Type) where
  start : T
  stop : Option T
  topic : Option String
  context : String
  query : String
  alternatives : List String
  deriving BEq, Repr

namespace Proposal
variable {T : Type} [TimeScale T]

def record : Record T (Proposal T) :=
  (Record.of "SlotProposal" Proposal.mk)
    |>.field (.required "start" .real)
    |>.field (.optional "end" .real)
    |>.field (.optional "topic" (.text "a string"))
    |>.field (.defaulted "context_text" (.text "a string") "")
    |>.field (.defaulted "query" (.text "a string") "")
    |>.field (.defaulted "alternative_queries" (.list (.text "a string")) [])

/-- The proposal of an entry that has a start and fits otherwise. An end that is no time counts as
none. -/
def ofJson? (j : Json T) : Option (Proposal T) := do
  let ms ← j.asObject?
  let start ← (Members.get? "start" ms).bind Stamp.ofJson?
  let stop := (Members.get? "end" ms).bind Stamp.ofJson?
  let ms := Members.put "start" (.number (.real start)) ms
  let ms := Members.put "end" (match stop with
    | some t => .number (.real t)
    | none => .null) ms
  (record.read (.object ms)).toOption

/-- The proposals of a document. One that is no list has none. -/
def listOf : Json T → List (Proposal T)
  | .list items => items.filterMap ofJson?
  | _ => []

def origin : String := "cf_plan::slots"

def logListOf : Json T → List Log.Line
  | .list _ => []
  | _ => [⟨.warn, origin, "Slot proposals are not a list; ignoring"⟩]

/-- The document in the text of a file of proposals. -/
def document (s : String) : Except Failure (Json T) :=
  match Json.ofText s with
  | .ok j => .ok j
  | .error e => .error (.validation ("proposals are not valid JSON: " ++ e.message))

end Proposal

end Montage
