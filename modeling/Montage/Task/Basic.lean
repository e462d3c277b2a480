import Montage.Task.Operation

/-!
# Tasks

A task is an operation with the name its output is kept under and the names it reads. The first name
it reads is its primary input; a task that names none works on what the task before it left. A plan
is a list of tasks.
-/

namespace Montage

structure Task (T : Type) where
  op : Operation T
  /-- The name of the output. What reads a task takes an empty name for none; a task that is put
  together otherwise may have one, which is then a name like any other. -/
  output : Option String
  /-- The names it reads. An empty list of them beside none at all is left out, since no task comes
  to have one: what reads a task takes it for none, and so does what drops names. -/
  inputs : List String
  deriving BEq, Repr

abbrev Plan (T : Type) := List (Task T)

/-- The name that stands for the video a run starts from. -/
def sourceName : String := "source"

namespace Task
variable {T : Type}

def ofOperation (op : Operation T) : Task T := ⟨op, none, []⟩

def kind? (t : Task T) : Option Kind := t.op.kind?

def isKind (k : Kind) (t : Task T) : Bool := t.kind? == some k

def isFetch (t : Task T) : Bool := t.kind?.any Kind.isFetch

/-- The names a task reads, the media it inserts included. -/
def referencedNames (t : Task T) : List String :=
  t.inputs ++ match t.op with
    | .overlayVideo p => [p.clip]
    | .addImageOverlay p => [p.image]
    | _ => []

/-- A task on one line. -/
def text (t : Task T) : String :=
  t.op.typeName ++
    (match t.output with
      | some name => " -> " ++ name
      | none => "") ++
    (if t.inputs.isEmpty then "" else " <- [" ++ ", ".intercalate t.inputs ++ "]")

variable [TimeScale T]

/-- The form of a task in canonical plans. -/
structure Wire (T : Type) where
  typeName : String
  params : Json T
  output : Option String
  inputs : Option (List String)

def Wire.record : Record T (Wire T) :=
  (Record.of "WireTask" Wire.mk)
    |>.field (.required "type" plainText)
    |>.field (.defaulted "params" .any .null)
    |>.field (.optional "output_id" plainText)
    |>.field (.optional "inputs" (.list plainText))

def ofWire (w : Wire T) : Except (Operation.Flaw T) (Task T) := do
  let op ← Operation.ofParts w.typeName w.params
  return ⟨op, w.output.filter (· ≠ ""), w.inputs.getD []⟩

def toWire (t : Task T) : Wire T where
  typeName := t.op.typeName
  params := t.op.paramsJson
  output := t.output
  inputs := if t.inputs.isEmpty then none else some t.inputs

/-- The task of a canonical plan. -/
def ofJson (j : Json T) : Except (Operation.Flaw T) (Task T) :=
  match Wire.record.read j with
  | .error m => .error (.misfit m)
  | .ok w => ofWire w

/-- The members of a task in the order in which they are written. -/
def Wire.json (w : Wire T) : Json T :=
  .object (member "type" (.text w.typeName) ++ member "params" w.params ++
    memberIf "output_id" (w.output.map .text) ++ memberIf "inputs" (w.inputs.map .texts))

def json (t : Task T) : Json T := t.toWire.json

end Task

namespace Plan
variable {T : Type}

/-- How many tasks are of a kind. -/
def count (k : Kind) (ts : Plan T) : Nat := ts.countP (Task.isKind k)

/-- The position of the first task whose output has a name. -/
def declaredAt? (name : String) (ts : Plan T) : Option Nat :=
  ts.findIdx? fun t => t.output == some name

variable [TimeScale T]

/-- The tasks of a list in canonical form. -/
def ofWire (j : Json T) : Except (Operation.Flaw T) (Plan T) :=
  match j with
  | .list items => items.mapM Task.ofJson
  | j => .error (.misfit (.wrongType j.found "a sequence"))

def json (ts : Plan T) : Json T := .list (ts.map Task.json)

end Plan

end Montage
