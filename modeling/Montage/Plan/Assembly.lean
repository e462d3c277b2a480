import Montage.Task.Basic
import Montage.Plan.Correction
import Montage.Time.Tenth

/-!
# Assemblies

An assembly cuts the source into parts and joins the parts with fetched clips. The joined video has
another length than the source, and what is said no longer fits what is seen. Where the parts leave
gaps, the assembly is replaced: the source plays on from the first part to the end of the last, and
the clips are laid over the gaps. Every gap needs a clip, or footage that was cut out would come
back. Where they leave none, parts and clips are joined by turns.
-/

namespace Montage
open TimeScale

/-- A part of the source with a name. -/
structure SourceTrim (T : Type) where
  position : Nat
  name : String
  start : T
  stop : Option T

/-- The tasks that make up an assembly. -/
structure Assembly (T : Type) where
  /-- The position of the task that joins the parts. -/
  position : Nat
  inputs : List String
  output : Option String
  trims : List (SourceTrim T)
  /-- The names of the clips that are fetched before. -/
  clips : List String

namespace Assembly
variable {T : Type}

/-- The parts of the source among tasks that stand from position `i` on. -/
def trimsFrom (i : Nat) : Plan T → List (SourceTrim T)
  | [] => []
  | t :: rest => match t.op, t.output with
    | .trim p, some name =>
      if t.inputs = [sourceName] then ⟨i, name, p.start, p.stop⟩ :: trimsFrom (i + 1) rest
      else trimsFrom (i + 1) rest
    | _, _ => trimsFrom (i + 1) rest

/-- The assembly of a plan that lays no clip over anything and joins something by name. -/
def find? (ts : Plan T) : Option (Assembly T) := do
  if ts.count .overlayVideo ≠ 0 then none
  let i ← ts.findIdx? fun t => t.isKind .concat && !t.inputs.isEmpty
  let t ← ts[i]?
  let before := ts.take i
  let clips := (before.filter (Task.isKind .fetchVideo)).filterMap Task.output
  let trims := trimsFrom 0 before
  if clips.isEmpty || trims.isEmpty then none else some ⟨i, t.inputs, t.output, trims, clips⟩

def trimNames (a : Assembly T) : List String := a.trims.map SourceTrim.name

/-- The first joined name that is neither a part of the source nor a fetched clip. -/
def foreign? (a : Assembly T) : Option String :=
  a.inputs.find? fun n => !a.trimNames.contains n && !a.clips.contains n

/-- A part of the source is read by another task than the one that joins the parts. -/
def isShared (a : Assembly T) (ts : Plan T) : Bool :=
  (ts.eraseIdx a.position).any fun t => t.referencedNames.any a.trimNames.contains

/-- Parts and clips by turns, as long as there are both. -/
def alternate : List String → List String → List String
  | [], clips => clips
  | trims, [] => trims
  | t :: trims, c :: clips => t :: c :: alternate trims clips

/-- With parts and clips joined by turns. -/
def interleave (a : Assembly T) (ts : Plan T) : Repaired T (Plan T) :=
  let inputs := alternate a.trimNames a.clips
  if inputs = a.inputs then .clean ts
  else ⟨ts.modify a.position fun t => { t with inputs }, [.reorderedConcat inputs]⟩

/-- What lies between each window and the next, where that is longer than nothing. -/
def between {α : Type} [LT α] [DecidableLT α] : List (α × α) → List (α × α)
  | [] => []
  | [_] => []
  | v :: w :: rest =>
    if v.2 < w.1 then (v.2, w.1) :: between (w :: rest) else between (w :: rest)

variable [TimeScale T]

/-- The gaps between the parts in order of time. There are none if a part has no end. -/
def gaps (a : Assembly T) : List (T × T) :=
  match a.trims.mapM fun t => t.stop.map fun stop => (t.start, stop) with
  | some windows => between (windows.mergeSort fun v w => ascending v.1 w.1)
  | none => []

/-- A clip laid over a gap. -/
def overlay (gap : T × T) (clip : String) : Task T :=
  .ofOperation (.overlayVideo ⟨Tenth.nearest gap.1, some (Tenth.nearest gap.2), clip⟩)

/-- Clips over gaps, the first of them on the source. -/
def overlays (a : Assembly T) : Plan T :=
  match List.zipWith overlay a.gaps a.clips with
  | [] => []
  | t :: rest => { t with inputs := [sourceName] } :: rest

/-- The source from the first start of a part to the last end of one. -/
def bounding (a : Assembly T) : Task T :=
  let starts := a.trims.map SourceTrim.start
  let stops := a.trims.filterMap SourceTrim.stop
  { op := .trim ⟨starts.tail.foldl earlier (starts.headD zero),
      some (stops.tail.foldl later (stops.headD zero))⟩
    output := a.output
    inputs := [] }

/-- The plan with the overlays in the place of the joining, and without the parts. -/
def rebuild (a : Assembly T) (ts : Plan T) : Plan T :=
  let rest (first : Nat) (ts : Plan T) :=
    ((ts.zipIdx first).filter fun m => !a.trims.any (·.position == m.2)).map (·.1)
  rest 0 (ts.take a.position) ++ a.overlays ++ [a.bounding] ++
    rest (a.position + 1) (ts.drop (a.position + 1))

/-- With clips laid over the gaps. Clips that were joined and are of no use now are not fetched. -/
def fillGaps (a : Assembly T) (ts : Plan T) : Repaired T (Plan T) :=
  let rebuilt := a.rebuild ts
  let used := a.clips.take a.overlays.length
  let referenced := rebuilt.flatMap Task.referencedNames
  let unused (t : Task T) : Option String := do
    let name ← t.output
    if t.isKind .fetchVideo && a.inputs.contains name && !used.contains name &&
        !referenced.contains name then
      some name
    else none
  { plan := rebuilt.filter fun t => (unused t).isNone
    corrections := .filledGaps a.overlays.length ::
      (rebuilt.filterMap unused).map .removedOrphanFetch }

/-- Each gap has a clip, and nothing else needs the parts. -/
def canFillGaps (a : Assembly T) (ts : Plan T) : Bool :=
  !a.gaps.isEmpty && a.gaps.length ≤ a.clips.length && !a.isShared ts

end Assembly

namespace Plan
variable {T : Type}

/-- With its assembly repaired, if it has one that joins nothing else. -/
def repairAssembly [TimeScale T] (ts : Plan T) : Repaired T (Plan T) :=
  match Assembly.find? ts with
  | none => .clean ts
  | some a =>
    if a.foreign?.isSome then .clean ts
    else if a.canFillGaps ts then a.fillGaps ts
    else a.interleave ts

end Plan

end Montage
