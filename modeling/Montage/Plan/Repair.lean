import Montage.Plan.Naming
import Montage.Plan.Assembly
import Montage.Plan.Inserts
import Montage.Slot.Basic
import Montage.Log.Basic

/-!
# Repair of plans

No plan is refused. What can be set right is set right, in four stages: fetches get names, an
assembly is replaced by overlays or put in order, overlays are made as long as the rules allow, and
overlays beyond the greatest number are removed. A plan that inserts nothing may first be given
insertions from slots.
-/

namespace Montage
open TimeScale

namespace Plan
variable {T : Type} [TimeScale T]

/-- The plan as it should be, and what was changed. -/
def repair (r : InsertRules T) (ts : Plan T) : Repaired T (Plan T) :=
  ts.nameFetches
    |>.andThen repairAssembly
    |>.andThen (clampDurations r)
    |>.andThen (truncateInserts r.maxInserts)

/-- What to look for to fill a slot. -/
def slotQuery (s : Slot T) : String :=
  if Text.isBlankText s.query then Text.take 80 s.context else s.query

/-- A fetch and an overlay for each slot, named after the number `n`. -/
def pairsFor (used : List String) (n : Nat) : List (Slot T) → Plan T
  | [] => []
  | s :: rest =>
    let n := nextNumber used n
    let name := stockName n
    ⟨.fetchVideo ⟨slotQuery s, s.alternatives, ofNat 30, "landscape"⟩, some name, []⟩ ::
      .ofOperation (.overlayVideo ⟨s.start, some s.stop, name⟩) ::
      pairsFor (name :: used) n rest

/-- There are slots to fill, and the plan fills none. -/
def wantsSlots (slots : List (Slot T)) (ts : Plan T) : Bool :=
  !slots.isEmpty && ts.count .overlayVideo = 0

/-- With a fetch and an overlay for each slot. -/
def withSlots (slots : List (Slot T)) (ts : Plan T) : Plan T :=
  ts ++ pairsFor ts.declaredNames 0 slots

/-- Repaired, with insertions for the slots where there are none yet. -/
def repairWithSlots (r : InsertRules T) (slots : List (Slot T)) (ts : Plan T) :
    Repaired T (Plan T) :=
  if ts.wantsSlots slots then
    let repaired := (ts.withSlots slots).repair r
    { repaired with corrections := .synthesizedInserts slots.length :: repaired.corrections }
  else ts.repair r

/-! ## Log -/

variable [Spelled T]

def repairOrigin : String := "cf_plan::repair"

def logRepair (r : InsertRules T) (ts : Plan T) : List Log.Line :=
  let repaired := ts.repair r
  let foreign? := (Assembly.find? ts.nameFetches.plan).bind Assembly.foreign?
  (foreign?.toList.map fun name => ⟨.debug, repairOrigin,
    "Concat input '" ++ name ++ "' is not a source trim or fetch; assembly left as is"⟩) ++
  (repaired.corrections.map fun c => ⟨.warn, repairOrigin, "Plan corrected: " ++ c.message⟩) ++
  [⟨.info, repairOrigin, "Plan has " ++ toString repaired.plan.length ++ " task(s), " ++
    toString (repaired.plan.count .overlayVideo) ++ " overlay insert(s)"⟩]

def logRepairWithSlots (r : InsertRules T) (slots : List (Slot T)) (ts : Plan T) :
    List Log.Line :=
  if ts.wantsSlots slots then
    ⟨.info, repairOrigin,
        "Plan has no inserts; adding " ++ toString slots.length ++ " from slots"⟩ ::
      (ts.withSlots slots).logRepair r
  else ts.logRepair r

end Plan

end Montage
