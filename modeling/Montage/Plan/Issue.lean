import Montage.Task.Basic

/-!
# Issues of a plan

What can be seen to be wrong with the names of a plan before it is run. The image of an image
overlay may be a path; it counts as a name only where some task gives its output that name.
-/

namespace Montage

/-- Something wrong with the names or types of a plan. Positions count from zero. -/
inductive Issue where
  /-- Two tasks give their output the same name. -/
  | duplicateOutput (position : Nat) (name : String) (first : Nat)
  /-- A name is read before the task that gives it. -/
  | forwardReference (position : Nat) (name : String) (declaredAt : Nat)
  /-- A name is read that no task gives. -/
  | unknownReference (position : Nat) (name : String)
  /-- A type that no operation goes by. -/
  | unrecognizedType (position : Nat) (typeName : String)
  deriving DecidableEq, Repr

def Issue.message : Issue → String
  | .duplicateOutput i name first =>
    "task #" ++ toString (i + 1) ++ " reuses output '" ++ name ++ "' first declared by task #" ++
      toString (first + 1)
  | .forwardReference i name declaredAt =>
    "task #" ++ toString (i + 1) ++ " reads '" ++ name ++ "' before task #" ++
      toString (declaredAt + 1) ++ " produces it"
  | .unknownReference i name =>
    "task #" ++ toString (i + 1) ++ " reads '" ++ name ++ "', which nothing produces"
  | .unrecognizedType i typeName =>
    "task #" ++ toString (i + 1) ++ " has unknown type '" ++ typeName ++ "' and will be skipped"

namespace Plan
variable {T : Type}

def reads (ts : Plan T) (t : Task T) : List String :=
  t.inputs ++ match t.op with
    | .overlayVideo p => [p.clip]
    | .addImageOverlay p => if (ts.declaredAt? p.image).isSome then [p.image] else []
    | _ => []

/-- What is wrong with reading a name where only the tasks `before` have been run. -/
def issueOfRead (ts before : Plan T) (name : String) : Option Issue :=
  if name = sourceName || (before.declaredAt? name).isSome then none
  else match ts.declaredAt? name with
    | some i => some (.forwardReference before.length name i)
    | none => some (.unknownReference before.length name)

def issuesOfTask (ts before : Plan T) (t : Task T) : List Issue :=
  (match t.op with
    | .unrecognized typeName _ => [.unrecognizedType before.length typeName]
    | _ => []) ++
  (ts.reads t).filterMap (ts.issueOfRead before) ++
  (match t.output with
    | some name => match before.declaredAt? name with
      | some first => [.duplicateOutput before.length name first]
      | none => []
    | none => [])

/-- Issues of the tasks behind `before`. -/
def issuesFrom (ts before : Plan T) : Plan T → List Issue
  | [] => []
  | t :: rest => ts.issuesOfTask before t ++ ts.issuesFrom (before ++ [t]) rest

def issues (ts : Plan T) : List Issue := ts.issuesFrom [] ts

end Plan

end Montage
