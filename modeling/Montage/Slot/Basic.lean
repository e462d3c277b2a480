import Montage.Config.Rules
import Montage.Json.Reader
import Montage.Text.Blank

/-!
# Slots

A slot is a window of the video into which supplementary media are to be inserted, with a query to
find them by.
-/

namespace Montage
open TimeScale

structure Slot (T : Type) where
  start : T
  stop : T
  /-- What is said around the window. -/
  context : String
  query : String
  alternatives : List String
  topic : Option String
  deriving BEq, Repr

namespace Slot
variable {T : Type} [TimeScale T]

/-- A window alone. -/
def window (start stop : T) : Slot T := ⟨start, stop, "", "", [], none⟩

def duration (s : Slot T) : T := s.stop - s.start

def record : Record T (Slot T) :=
  (Record.of "Slot" Slot.mk)
    |>.field (.required "start" .real)
    |>.field (.required "end" .real)
    |>.field (.defaulted "context_text" (.text "a string") "")
    |>.field (.defaulted "query" (.text "a string") "")
    |>.field (.defaulted "alternative_queries" (.list (.text "a string")) [])
    |>.field (.optional "topic" (.text "a string"))

/-- The members of a slot in the order in which they are written. -/
def json (s : Slot T) : Json T :=
  .object ([("start", .real s.start), ("end", .real s.stop), ("context_text", .text s.context),
    ("query", .text s.query), ("alternative_queries", .texts s.alternatives)] ++
    match s.topic with
    | some topic => [("topic", .text topic)]
    | none => [])

def listReader : Reader T (List (Slot T)) := .list record.reader

end Slot

end Montage
