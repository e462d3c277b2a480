import Montage.Task.Basic
import Montage.Scratch
import Montage.Log.Basic

/-!
# Artifacts of a run

Which file each name stands for, which file is current, that is, what a task without inputs works
on, and which files the run has to remove at its end. A name that is given again stands for the
later file.
-/

namespace Montage

inductive ArtifactState where
  /-- Some task is going to give the name. -/
  | pending
  | produced
  /-- Removed at the end of the run. -/
  | cleaned
  /-- Kept as the output of the run. -/
  | persisted
  deriving DecidableEq, Repr

/-- A file that the run has made. -/
structure Transient where
  path : Path
  state : ArtifactState
  deriving DecidableEq, Repr

structure Registry where
  /-- Names with their files, the last given first. -/
  names : List (String × Path)
  /-- The names given so far without that of the source, in the order in which they were first
  given. -/
  produced : List String
  /-- The names that the plan gives. -/
  declared : List String
  /-- The names that will never be given, because nothing was found for them. -/
  blocked : List String
  current : Path
  /-- The files that the run has made, in the order in which they were made. -/
  transients : List Transient

namespace Registry

/-- At the start, only the source has a name. -/
def start (source : Path) (declared : List String) : Registry where
  names := [(sourceName, source)]
  produced := []
  declared := declared
  blocked := []
  current := source
  transients := []

/-- The file that a name stands for. -/
def resolve? (r : Registry) (name : String) : Option Path := r.names.lookup name

def isDeclared (r : Registry) (name : String) : Bool := r.declared.contains name

def isBlocked (r : Registry) (name : String) : Bool := r.blocked.contains name

/-- The names that stand for something. -/
def available (r : Registry) : List String := sourceName :: r.produced

/-- What has become of a name. -/
def state? (r : Registry) (name : String) : Option ArtifactState :=
  match r.resolve? name with
  | some p => match r.transients.reverse.find? fun t => t.path.same p with
    | some t => some t.state
    | none => some .produced
  | none => if r.isDeclared name then some .pending else none

def block (r : Registry) (name : String) : Registry :=
  if r.isBlocked name then r else { r with blocked := name :: r.blocked }

/-- With a file that the run has to remove. -/
def track (r : Registry) (p : Path) : Registry :=
  if r.transients.any fun t => t.path.same p then r
  else { r with transients := r.transients ++ [⟨p, .produced⟩] }

/-- With a name for a file. -/
def bind (r : Registry) (name : String) (p : Path) : Registry :=
  { r with
    names := (name, p) :: r.names
    produced := if (r.resolve? name).isSome then r.produced else r.produced ++ [name]
    blocked := r.blocked.filter (· ≠ name) }

/-- With the output of a task: named if the task gives it a name, and current if it is on the main
chain. -/
def publish (r : Registry) (name? : Option String) (p : Path) (effect : ChainEffect) : Registry :=
  let r := match name? with
    | some name => r.bind name p
    | none => r
  match effect with
  | .mainChain => { r with current := p }
  | .sideArtifact => r

/-- With the file at `p` kept. -/
def persist (r : Registry) (p : Path) : Registry :=
  { r with transients := r.transients.map fun t =>
      if t.path.same p then { t with state := .persisted } else t }

/-! ## Cleaning up -/

/-- What is left when files have been removed. -/
structure Cleanup where
  transients : List Transient
  files : Files
  /-- How many files were removed. -/
  count : Nat
  log : List Log.Line

def origin : String := "cf_pipeline::registry"

/-- With the files removed that are not to be kept. -/
def sweep (fs : Files) : List Transient → Cleanup
  | [] => ⟨[], fs, 0, []⟩
  | t :: ts =>
    if t.state = .produced then
      match Scratch.discard t.path fs with
      | .ok fs =>
        let rest := sweep fs ts
        { rest with
          transients := { t with state := .cleaned } :: rest.transients
          count := rest.count + 1 }
      | .error e =>
        let rest := sweep fs ts
        { rest with
          transients := t :: rest.transients
          log := ⟨.warn, origin, "Failed to remove " ++ t.path.text ++ ": " ++ e.message⟩ ::
            rest.log }
    else
      let rest := sweep fs ts
      { rest with transients := t :: rest.transients }

/-- The end of a run. What cannot be removed stays. -/
def cleanup (r : Registry) (fs : Files) : Registry × Cleanup :=
  let c := sweep fs r.transients
  ({ r with transients := c.transients },
    { c with log := c.log ++
        [⟨.debug, origin, "Cleaned " ++ toString c.count ++ " transient file(s)"⟩] })

end Registry

end Montage
