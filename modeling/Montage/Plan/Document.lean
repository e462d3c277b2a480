import Montage.Task.Basic
import Montage.Time.Stamp

/-!
# Plan documents

People write plans by hand and spell the same field in several ways. A record of a plan document is
brought into the form of a task here: names of fields, names without quotes and clock times are all
settled, so that nothing behind this point knows of them. A record that is no task is dropped, and
the plan goes on without it.
-/

namespace Montage
open TimeScale

namespace Plan

/-- Names of the field that holds the type, in order of priority. -/
def typeKeys : List String := ["type", "task_type", "action", "step", "operation"]

def outputKeys : List String := ["output_id", "id"]

def paramsKeys : List String := ["params", "parameters", "config"]

/-- Names of the member of a document that holds its records. -/
def listKeys : List String := ["tasks", "task_list", "steps"]

/-- Names of the clip that a video overlay shows. -/
def clipKeys : List String := ["clip", "stock_id", "clip_id"]

/-- Names of the parameters that hold times. -/
def timeKeys : List String := ["start_time", "end_time", "start", "end"]

/-- Why a record is no task. -/
inductive Refusal (T : Type) where
  | notObject
  | noType
  | badInputs
  | badParams (typeName : String) (flaw : Operation.Flaw T)

def Refusal.message {T : Type} [Spelled T] : Refusal T → String
  | .notObject => "record is not an object"
  | .noType => "record has no operation type"
  | .badInputs => "inputs must be a list of names"
  | .badParams typeName flaw => typeName ++ ": " ++ flaw.message

/-- A record that was dropped. Positions count from zero. -/
structure Dropped (T : Type) where
  position : Nat
  reason : Refusal T

/-- What a document holds. -/
structure Reading (T : Type) where
  tasks : Plan T
  dropped : List (Dropped T)

section
variable {T : Type} [TimeScale T] [Spelled T]

/-- A name: a text that is not blank, or a number written without quotes. -/
def asName? : Json T → Option String
  | .text s => if Text.isBlankText s then none else some (Text.trim s)
  | .number n => some n.text
  | _ => none

/-- The names that a task reads. A text alone is one name, taken as it stands. -/
def readInputs (ms : Members T) : Except (Refusal T) (List String) :=
  match Members.get? "inputs" ms with
  | none => .ok []
  | some .null => .ok []
  | some (.text s) => .ok [s]
  | some (.list items) => match items.mapM asName? with
    | some names => .ok names
    | none => .error .badInputs
  | some _ => .error .badInputs

/-- With the clip of an overlay under its own name. -/
def settleClip (params : Members T) : Members T :=
  let clip? := clipKeys.findSome? fun k => (params.get? k).bind asName?
  let rest := clipKeys.foldl (fun ms k => ms.remove k) params
  match clip? with
  | some clip => rest.put "clip" (.text clip)
  | none => rest

end

section
variable {T : Type} [TimeScale T]

/-- With a number of seconds for each time that can be read. What cannot be read stays, for the
parameters of the operation to refuse. -/
def settleTimes (params : Members T) : Members T :=
  timeKeys.foldl (fun ms k => match (ms.get? k).bind Stamp.ofJson? with
    | some t => ms.put k (.number (.real t))
    | none => ms) params

/-- With the times of subtitles settled, where there are any. -/
def settleCues (params : Members T) : Members T :=
  match params.get? "segments" with
  | some (.list cues) => params.put "segments" <| .list <| cues.map fun cue => match cue with
      | .object ms => .object (settleTimes ms)
      | j => j
  | _ => params

end

variable {T : Type} [TimeScale T] [Spelled T]

/-- The parameters of a record of this type. -/
def settleParams (typeName : String) (ms : Members T) : Members T :=
  let params := match ms.firstOf? paramsKeys with
    | some (.object params) => params
    | _ => []
  let params :=
    if Kind.ofName? typeName = some .overlayVideo then settleClip params else params
  settleCues (settleTimes params)

/-- The type of a record, without the blanks around it. -/
def typeName? (ms : Members T) : Option String := do
  let s ← (← ms.firstOf? typeKeys).asText?
  if Text.isBlankText s then none else some (Text.trim s)

def readRecord (j : Json T) : Except (Refusal T) (Task T) := do
  let .object ms := j | .error .notObject
  let some typeName := typeName? ms | .error .noType
  let inputs ← readInputs ms
  match Operation.ofParts typeName (.object (settleParams typeName ms)) with
  | .error flaw => .error (.badParams typeName flaw)
  | .ok op => .ok ⟨op, (Members.firstOf? outputKeys ms).bind asName?, inputs⟩

/-- Records from position `n` on. -/
def readRecords (n : Nat) : List (Json T) → Reading T
  | [] => ⟨[], []⟩
  | j :: js =>
    let rest := readRecords (n + 1) js
    match readRecord j with
    | .ok t => { rest with tasks := t :: rest.tasks }
    | .error reason => { rest with dropped := ⟨n, reason⟩ :: rest.dropped }

/-- The plan of a document: a list of records, or an object that holds one. -/
def ofJson : Json T → Except Failure (Reading T)
  | .list items => .ok (readRecords 0 items)
  | .object ms => match (Members.firstOf? listKeys ms).bind Json.asList? with
    | some items => .ok (readRecords 0 items)
    | none =>
      .error (.plan ("plan object has no task list (looked for " ++ ", ".intercalate listKeys ++
        ")"))
  | _ => .error (.plan "plan must be a JSON array or object")

def ofText (s : String) : Except Failure (Reading T) :=
  match (Json.ofText s : Except Fault (Json T)) with
  | .ok j => ofJson j
  | .error e => .error (.plan ("plan is not valid JSON: " ++ e.message))

def Reading.log (r : Reading T) : List Log.Line :=
  let origin := "cf_plan::normalize"
  (r.dropped.map fun d => ⟨.warn, origin,
    "Dropping plan record #" ++ toString (d.position + 1) ++ ": " ++ d.reason.message⟩) ++
  [⟨.debug, origin, "Normalized " ++ toString r.tasks.length ++ " task(s), dropped " ++
    toString r.dropped.length⟩]

end Plan

end Montage
