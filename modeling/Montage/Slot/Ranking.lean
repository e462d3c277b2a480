import Montage.Slot.Sections

/-!
# Slots from proposals

Proposals are sorted by their starts and moved into the rules one after the other: into the range of
the video, into the range of durations, and away from the slot before. What does not fit then is
left out. Where proposals fail, or none of them fits, the slots at sentence boundaries stand in.
-/

namespace Montage
open TimeScale

namespace InsertRules
variable {T : Type} [TimeScale T]

/-- The window of a proposal, behind a slot that ended at `last?`. -/
def windowFor (r : InsertRules T) (latest : T) (last? : Option T) (p : Proposal T) : T × T :=
  let start := Tenth.above (later p.start r.earliestStart)
  let stop := r.fitEnd start (earlier (p.stop.getD (start + r.target)) latest)
  match last? with
  | none => (start, stop)
  | some last =>
    let next := r.nextStart last
    if start < next then (next, r.fitEnd next (next + r.target)) else (start, stop)

/-- The query of a proposal, or else its topic, or else the start of its context. -/
def queryOf (p : Proposal T) : String :=
  let query := Text.trim p.query
  let topic := Text.trim (p.topic.getD "")
  if query ≠ "" then query
  else if topic ≠ "" then topic
  else Text.take 60 (Text.trim p.context)

/-- At most `n` slots for proposals in order, behind a slot that ended at `last?`. -/
def place (r : InsertRules T) (latest : T) :
    Nat → Option T → List (Proposal T) → List (Slot T)
  | _, _, [] => []
  | 0, _, _ :: _ => []
  | n + 1, last?, p :: ps =>
    let (start, stop) := r.windowFor latest last? p
    if latest < stop then r.place latest (n + 1) last? ps
    else
      ⟨start, stop, p.context, queryOf p, p.alternatives, p.topic⟩ ::
        r.place latest n (some stop) ps

/-- Slots for proposals. -/
def fix (r : InsertRules T) (proposals : List (Proposal T)) (duration : T) : List (Slot T) :=
  let sorted := (proposals.filter fun p => isFinite p.start).mergeSort fun a b =>
    ascending a.start b.start
  r.place (r.latestEnd duration) r.maxInserts none sorted

/-- Seconds of speech around a proposal. -/
def speechAround (r : InsertRules T) (t : Transcript T) (p : Proposal T) : T :=
  t.speechWithin (p.start - contextLead) (p.stop.getD (p.start + r.target) + contextTrail)

/-- The proposals with enough speech around them. Where there is no transcript, all of them. -/
def spoken (r : InsertRules T) (t : Transcript T) (ps : List (Proposal T)) : List (Proposal T) :=
  if t.segments.isEmpty then ps else ps.filter fun p => r.minTopic ≤ r.speechAround t p

/-- Slots for what was proposed, or at sentence boundaries. -/
def rankedSlots (r : InsertRules T) (proposed : Except Failure (List (Proposal T)))
    (t : Transcript T) (duration : T) : List (Slot T) :=
  match proposed with
  | .error _ => r.slots t duration
  | .ok ps =>
    let slots := r.fix (r.spoken t ps) duration
    if slots.isEmpty then r.slots t duration else slots

variable [Spelled T]

def logSpoken (r : InsertRules T) (t : Transcript T) (ps : List (Proposal T)) : List Log.Line :=
  if t.segments.isEmpty then []
  else ps.filterMap fun p =>
    let speech := r.speechAround t p
    if speech < r.minTopic then
      some ⟨.debug, Proposal.origin, "Dropping proposal at " ++ Spelled.fixed 1 p.start ++
        "s: only " ++ Spelled.fixed 1 speech ++ "s of speech"⟩
    else none

def logRankedSlots (r : InsertRules T) (proposed : Except Failure (List (Proposal T)))
    (t : Transcript T) (duration : T) : List Log.Line :=
  match proposed with
  | .error e =>
    ⟨.warn, Proposal.origin,
        "Slot ranking failed (" ++ e.message ++ "); using deterministic slots"⟩ ::
      r.logSlots t duration
  | .ok ps =>
    let slots := r.fix (r.spoken t ps) duration
    r.logSpoken t ps ++
    if slots.isEmpty then
      ⟨.warn, Proposal.origin, "No proposed slot survived the rules; using deterministic slots"⟩ ::
        r.logSlots t duration
    else
      let windows := slots.map fun s =>
        "(" ++ Spelled.diagnostic s.start ++ ", " ++ Spelled.diagnostic s.stop ++ ", " ++
          Text.quoted (s.topic.getD "") ++ ")"
      [⟨.info, Proposal.origin, "Insert slots (ranked): " ++ diagnosticList windows⟩]

end InsertRules

end Montage
