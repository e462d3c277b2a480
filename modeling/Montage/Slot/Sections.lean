import Montage.Slot.Basic
import Montage.Slot.Proposal
import Montage.Transcript
import Montage.Time.Tenth

/-!
# Slots at sentence boundaries

Without proposals, the range in which an insertion may start is cut into sections of one length, as
many as there may be insertions. Each section gives the boundary nearest to its middle, or the
middle where no boundary falls into it. Windows start and end on the grid of tenths wherever the
rules leave room for that.
-/

namespace Montage
open TimeScale

namespace InsertRules
variable {T : Type} [TimeScale T]

def latestEnd (r : InsertRules T) (duration : T) : T := Tenth.below (duration - r.avoidLast)

def earliestStart (r : InsertRules T) : T := Tenth.above r.avoidFirst

/-- The end nearest to `stop` of a slot that starts at `start`. -/
def fitEnd (r : InsertRules T) (start stop : T) : T :=
  let low := Tenth.above (start + r.minDuration)
  let high := Tenth.below (start + r.maxDuration)
  if high < low then start + r.clampDuration (stop - start)
  else clamp low high (Tenth.nearest stop)

/-- The first start after a slot that ends at `stop`. -/
def nextStart (r : InsertRules T) (stop : T) : T := Tenth.above (stop + r.minGap)

/-- Of some times in a section, the one nearest to `mid`, the first of several. -/
def nearestTo? (mid : T) : List T → Option T
  | [] => none
  | b :: bs => some <| bs.foldl (fun best x =>
      if ascending (TimeScale.abs (best - mid)) (TimeScale.abs (x - mid)) then best else x) b

/-- The moment that a section gives. -/
def snap (boundaries : List T) (low high : T) : T :=
  let mid := (low + high) / ofNat 2
  (nearestTo? mid (boundaries.filter fun b => low ≤ b && b ≤ high)).getD mid

/-- The slots of the last `n` of the sections, where `i` sections and a slot that ended at `last?`
come before. -/
def sections (r : InsertRules T) (boundaries : List T) (length latest : T) :
    Nat → Nat → Option T → List (Slot T)
  | 0, _, _ => []
  | n + 1, i, last? =>
    let low := r.avoidFirst + ofNat i * length
    let start := later (Tenth.nearest (snap boundaries low (low + length))) r.earliestStart
    let start := match last? with
      | some last => later start (r.nextStart last)
      | none => start
    let stop := r.fitEnd start (start + r.target)
    if latest < stop then r.sections boundaries length latest n (i + 1) last?
    else .window start stop :: r.sections boundaries length latest n (i + 1) (some stop)

/-- The latest start that leaves room for a slot of medium duration. -/
def latestStart (r : InsertRules T) (duration : T) : T := r.latestEnd duration - r.target

/-- There is no insertion to plan in a video of this duration. -/
def noRoom (r : InsertRules T) (duration : T) : Bool :=
  r.maxInserts = 0 || r.latestStart duration ≤ r.avoidFirst

def slotsAt (r : InsertRules T) (boundaries : List T) (duration : T) : List (Slot T) :=
  if r.noRoom duration then []
  else
    let length := (r.latestStart duration - r.avoidFirst) / ofNat r.maxInserts
    r.sections boundaries length (r.latestEnd duration) r.maxInserts 0 none

/-- Speech counts as context of a slot from this long before it. -/
def contextLead : T := ofNat 3

/-- Speech counts as context of a slot until this long after it. -/
def contextTrail : T := ofNat 5

/-- With what the transcript says around a slot, and a query taken from that. -/
def describe (t : Transcript T) (s : Slot T) : Slot T :=
  let context := t.textBetween (s.start - contextLead) (s.stop + contextTrail) 300
  { s with
    context
    query := if context = "" then "professional b-roll" else Text.take 80 context }

def slots (r : InsertRules T) (t : Transcript T) (duration : T) : List (Slot T) :=
  (r.slotsAt t.boundaries duration).map (describe t)

end InsertRules

/-! ## Log -/

section
variable {T : Type} [TimeScale T] [Spelled T]

/-- The items of a list as in a diagnostic. -/
def diagnosticList (items : List String) : String := "[" ++ ", ".intercalate items ++ "]"

def InsertRules.logSlotsAt (r : InsertRules T) (duration : T) : List Log.Line :=
  if r.noRoom duration then
    [⟨.debug, Proposal.origin, "No room for inserts in " ++ Spelled.fixed 1 duration ++ "s"⟩]
  else []

def InsertRules.logSlots (r : InsertRules T) (t : Transcript T) (duration : T) : List Log.Line :=
  let windows := (r.slots t duration).map fun s =>
    "(" ++ Spelled.diagnostic s.start ++ ", " ++ Spelled.diagnostic s.stop ++ ")"
  r.logSlotsAt duration ++
    [⟨.info, Proposal.origin, "Insert slots (deterministic): " ++ diagnosticList windows⟩]

end

end Montage
