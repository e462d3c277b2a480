import Montage.Task.Basic
import Montage.Plan.Correction
import Montage.Config.Rules
import Montage.Time.Tenth

/-!
# Insertions of a plan

The overlays of a plan under the rules for insertions: each of them as long as the rules allow, and
no more of them than the rules allow. Fetches that served the removed overlays alone go with them.
-/

namespace Montage
open TimeScale

namespace InsertRules
variable {T : Type} [TimeScale T]

/-- The end nearest to `stop` that keeps to the rules, on the grid of tenths wherever they leave
room for that. -/
def endWithin (r : InsertRules T) (start stop : T) : T :=
  let low := Tenth.above (start + r.minDuration)
  let high := Tenth.below (start + r.maxDuration)
  if high < low then start + r.clampDuration (stop - start)
  else if stop - start < r.minDuration then low
  else high

/-- The end of an overlay under the rules. One without an end is made as short as they allow. -/
def settledEnd (r : InsertRules T) (p : VideoOverlay T) : T :=
  match p.stop with
  | none => r.endWithin p.start p.start
  | some stop =>
    if r.clampDuration (stop - p.start) == stop - p.start then stop else r.endWithin p.start stop

end InsertRules

namespace Plan
variable {T : Type}

/-- The plan without the overlays behind the first `n`, and those overlays. -/
def splitInserts : Nat → Plan T → Plan T × Plan T
  | _, [] => ([], [])
  | n, t :: rest =>
    if t.isKind .overlayVideo then
      match n with
      | 0 =>
        let (kept, removed) := splitInserts 0 rest
        (kept, t :: removed)
      | n + 1 =>
        let (kept, removed) := splitInserts n rest
        (t :: kept, removed)
    else
      let (kept, removed) := splitInserts n rest
      (t :: kept, removed)

def clip? (t : Task T) : Option String :=
  match t.op with
  | .overlayVideo p => some p.clip
  | _ => none

/-- The name of a fetch that served only the tasks that were removed. -/
def orphan? (kept removed : Plan T) (t : Task T) : Option String := do
  let name ← t.output
  if t.isFetch && (removed.filterMap clip?).contains name &&
      !(kept.flatMap Task.referencedNames).contains name then
    some name
  else none

def truncateInserts (n : Nat) (ts : Plan T) : Repaired T (Plan T) :=
  if ts.count .overlayVideo ≤ n then .clean ts
  else
    let (kept, removed) := splitInserts n ts
    let gone := removed.filterMap Task.output
    let staying := kept.filter fun t => (orphan? kept removed t).isNone
    { plan := staying.map fun t => { t with inputs := t.inputs.filter fun i => !gone.contains i }
      corrections := .truncatedInserts n removed.length ::
        (kept.filterMap (orphan? kept removed)).map .removedOrphanFetch ++
        (staying.flatMap fun t => t.inputs.filter gone.contains).map .droppedReference }

variable [TimeScale T]

/-- A task with its overlay as long as the rules allow. -/
def clampTask (r : InsertRules T) (t : Task T) : Repaired T (Task T) :=
  match t.op with
  | .overlayVideo p =>
    let stop := r.settledEnd p
    if p.stop == some stop then .clean t
    else
      ⟨{ t with op := .overlayVideo { p with stop := some stop } },
        [.clampedDuration p.clip p.start p.stop stop]⟩
  | _ => .clean t

def clampDurations (r : InsertRules T) (ts : Plan T) : Repaired T (Plan T) :=
  let clamped := ts.map (clampTask r)
  ⟨clamped.map Repaired.plan, clamped.flatMap Repaired.corrections⟩

end Plan

end Montage
