import Montage.Media.Recipe
import Montage.Run.Registry
import Montage.Run.Trace

/-!
# Running a plan

The tasks of a plan are run in their order. A transformation reads the files that its names stand
for, or the current one, and its output becomes the current file. A fetch asks the content source
and only gives a name to what is found; if nothing is found the name is blocked. The first failure
ends the run. In the end the current file is copied to the place of the output, and whatever else
the run has made is removed, also after a failure.
-/

namespace Montage

structure Setup (T : Type) where
  tool : MediaTool
  content : ContentSource T
  font : Path

/-- A run on its way. -/
structure RunState (T : Type) where
  registry : Registry
  scratch : Scratch
  files : Files
  /-- Calls of the media tool so far. -/
  calls : Nat
  /-- Requests to the content source so far. -/
  asked : Nat
  /-- Tasks that made something. -/
  steps : Nat
  skipped : List Skipped
  trace : List (Event T)

inductive Outcome where
  | done
  | skipped (reason : String)
  | failed (e : Failure)

structure Report where
  output : Path
  steps : Nat
  produced : List String
  skipped : List Skipped
  /-- How many transient files were removed. -/
  cleaned : Nat

namespace RunState
variable {T : Type}

def start (source : Path) (ts : Plan T) (scratch : Scratch) (files : Files) : RunState T where
  registry := .start source (ts.filterMap Task.output)
  scratch := scratch
  files := files
  calls := 0
  asked := 0
  steps := 0
  skipped := []
  trace := []

def note (s : RunState T) (events : List (Event T)) : RunState T :=
  { s with trace := s.trace ++ events }

/-- With a path of the scratch directory taken, which the run has to remove. -/
def take (s : RunState T) (p : Path) : RunState T :=
  { s with scratch := s.scratch.advance, registry := s.registry.track p }

def publish (s : RunState T) (name? : Option String) (p : Path) (effect : ChainEffect) :
    RunState T :=
  { s with registry := s.registry.publish name? p effect }

end RunState

namespace Setup
variable {T : Type} [TimeScale T]

/-! ## Fetching -/

/-- The request of a fetch, with the queries that may stand in for its own. -/
def requestOf? (t : Task T) : Option (Request T × List String) :=
  match t.op with
  | .fetchVideo p => some (⟨p.query, .video, some p.maxDuration, p.orientation⟩, p.alternatives)
  | .fetchImage p => some (⟨p.query, .image, none, p.orientation⟩, p.alternatives)
  | _ => none

/-- Run a fetch. A file of the scratch directory is removed with the others. -/
def fetch (su : Setup T) (t : Task T) (s : RunState T) : RunState T × Outcome :=
  match requestOf? t, t.output with
  | none, _ => (s, .skipped "not a fetch")
  | some _, none => (s, .skipped "fetch result has no output_id")
  | some (request, alternatives), some name =>
    let search := su.content.search request alternatives s.asked s.scratch s.files
    let s := { s with
      scratch := search.scratch
      files := search.files
      asked := s.asked + search.requests.length }.note
        (search.requests.map Event.asked ++ search.log.map Event.reported)
    match search.found with
    | some p =>
      let s := if p.isUnder s.scratch.dir then { s with registry := s.registry.track p } else s
      (s.publish (some name) p .sideArtifact, .done)
    | none =>
      ({ s with registry := s.registry.block name },
        .skipped ("no content found, '" ++ name ++ "' is blocked"))

/-! ## Transforming -/

/-- The file that a name stands for. -/
def resolve (r : Registry) (step : String) (position : Nat) (name : String) :
    Except Failure Path :=
  match r.resolve? name with
  | some p => .ok p
  | none =>
    if r.isBlocked name then .error (.blocked step position name)
    else .error (.unresolved step position name r.available)

/-- The name for which an optional insertion is passed over: the first that nothing was found for.
-/
def missedInsert? (r : Registry) (t : Task T) : Option String :=
  if t.kind?.any Kind.isOptionalInsert then t.referencedNames.find? r.isBlocked else none

/-- The clips to be joined that are not there. -/
def missingClips (files : Files) (t : Task T) : List Path :=
  match t.op with
  | .concat p => if t.inputs.isEmpty then p.clips.filter fun c => !files.isFile c else []
  | _ => []

/-- The files that a task reads. -/
def inputsOf (r : Registry) (files : Files) (position : Nat) (t : Task T) :
    Except Failure (List Path) :=
  if t.inputs.isEmpty then
    match t.op with
    | .concat p => .ok (p.clips.filter files.isFile)
    | _ => .ok [r.current]
  else t.inputs.mapM (resolve r t.op.typeName position)

/-- What a task lays over its input. The image of an image overlay is a path unless it is a name. -/
def attachmentOf (r : Registry) (files : Files) (position : Nat) (t : Task T) :
    Except Failure (Option Path) :=
  match t.op with
  | .overlayVideo p => (resolve r t.op.typeName position p.clip).map some
  | .addImageOverlay p =>
    match r.resolve? p.image with
    | some image => .ok (some image)
    | none =>
      if r.isDeclared p.image then
        .error (.unresolved t.op.typeName position p.image r.available)
      else if files.isFile ⟨p.image⟩ then .ok (some ⟨p.image⟩)
      else .ok none
  | _ => .ok none

def stepFailure (t : Task T) (position : Nat) (e : Failure) : Outcome :=
  .failed (.execution t.op.typeName position e.message)

/-- With the sidecar of a step written, if it has one. -/
def writeSidecar (position : Nat) (sidecar? : Option Sidecar) (s : RunState T) :
    RunState T × Except Failure Unit :=
  match sidecar? with
  | none => (s, .ok ())
  | some sidecar =>
    let s := s.take sidecar.path
    match s.files.writeText sidecar.path sidecar.text with
    | .ok files => ({ s with files }.note [.wrote position sidecar.path], .ok ())
    | .error e => (s, .error (.io e))

/-- With the media tool called. -/
def invoke (su : Setup T) (position : Nat) (i : Invocation) (s : RunState T) :
    RunState T × Except Failure Unit :=
  let reply := su.tool.run s.calls i s.files
  ({ s with files := reply.files, calls := s.calls + 1 }.note
      (.invoked position i s.files :: reply.log.map Event.reported),
    reply.answer)

variable [Spelled T]

/-- Run a step on its files. -/
def perform (su : Setup T) (t : Task T) (position : Nat) (step : StepFiles) (s : RunState T) :
    RunState T × Outcome :=
  match t.op.recipe step su.font s.scratch s.files with
  | .skip reason => (s, .skipped reason)
  | .refuse e => (s, stepFailure t position e)
  | .call i sidecar? =>
    match writeSidecar position sidecar? s with
    | (s, .error e) => (s, stepFailure t position e)
    | (s, .ok ()) => match su.invoke position i s with
      | (s, .error e) => (s, stepFailure t position e)
      | (s, .ok ()) => (s.publish t.output step.output .mainChain, .done)

def transform (su : Setup T) (t : Task T) (k : Kind) (position : Nat) (s : RunState T) :
    RunState T × Outcome :=
  match missedInsert? s.registry t with
  | some name => (s, .skipped ("'" ++ name ++ "' was never fetched"))
  | none =>
    let s := s.note ((missingClips s.files t).map Event.missingClip)
    match inputsOf s.registry s.files position t with
    | .error e => (s, .failed e)
    | .ok inputs => match attachmentOf s.registry s.files position t with
      | .error e => (s, .failed e)
      | .ok attachment =>
        let output := s.scratch.next k.wireName "mp4"
        su.perform t position ⟨inputs, attachment, output⟩ (s.take output)

/-! ## The plan -/

/-- Run one of `total` tasks. -/
def runTask (su : Setup T) (total position : Nat) (t : Task T) (s : RunState T) :
    RunState T × Except Failure Unit :=
  match t.kind? with
  | none =>
    let skip : Skipped := ⟨position, t.op.typeName, "unknown operation type"⟩
    ({ s with skipped := s.skipped ++ [skip] }.note [.unknown skip], .ok ())
  | some k =>
    let s := s.note [.started position total t]
    let (s, outcome) := if k.isFetch then su.fetch t s else su.transform t k position s
    match outcome with
    | .done => ({ s with steps := s.steps + 1 }.note [.completed position total t], .ok ())
    | .skipped reason =>
      let skip : Skipped := ⟨position, t.op.typeName, reason⟩
      ({ s with skipped := s.skipped ++ [skip] }.note [.skipped skip], .ok ())
    | .failed e => (s, .error e)

/-- Run the tasks from a position on, until one fails. -/
def runFrom (su : Setup T) (total : Nat) : Nat → Plan T → RunState T →
    RunState T × Except Failure Unit
  | _, [], s => (s, .ok ())
  | position, t :: ts, s =>
    match su.runTask total position t s with
    | (s, .error e) => (s, .error e)
    | (s, .ok ()) => su.runFrom total (position + 1) ts s

/-- With the current file copied to the place of the output. -/
def persist (output : Path) (s : RunState T) : RunState T × Except Failure Unit :=
  match Scratch.finalize s.registry.current output s.files with
  | (.error e, files) => ({ s with files }, .error e)
  | (.ok (), files) => ({ s with files, registry := s.registry.persist output }, .ok ())

/-- What a run leaves behind. -/
structure Finished (T : Type) where
  answer : Except Failure Report
  /-- The run at its end, after cleaning up. -/
  state : RunState T

def finish (output : Path) (answer : Except Failure Unit) (s : RunState T) : Finished T :=
  let (registry, cleanup) := s.registry.cleanup s.files
  let s := { s with registry, files := cleanup.files }.note (cleanup.log.map Event.reported)
  match answer with
  | .error e => ⟨.error e, s.note [.failed e]⟩
  | .ok () =>
    ⟨.ok ⟨output, s.steps, registry.produced, s.skipped, cleanup.count⟩,
      s.note [.finished output s.steps s.skipped.length]⟩

/-- Run a plan on a file that is there. -/
def runOn (su : Setup T) (ts : Plan T) (source output : Path) (s : RunState T) : Finished T :=
  let s := s.note [.began ts.length source su.tool.name]
  match su.runFrom ts.length 1 ts s with
  | (s, .error e) => finish output (.error e) s
  | (s, .ok ()) =>
    let (s, answer) := persist output s
    finish output answer s

/-- Run a plan on a source file, with its output at a place. -/
def run (su : Setup T) (ts : Plan T) (source output : Path) (scratch : Scratch) (files : Files) :
    Finished T :=
  let s := RunState.start source ts scratch files
  if files.isFile source then su.runOn ts source output s
  else ⟨.error (.validation ("input " ++ source.text ++ " does not exist")), s⟩

end Setup

end Montage
