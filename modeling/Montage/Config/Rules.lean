import Montage.Json.Reader

/-!
# Rules for insertions

How many pieces of supplementary media a plan may insert, how long each may be, and how far they
have to keep from the ends of the video and from each other. All times are in seconds.
-/

namespace Montage
open TimeScale

structure InsertRules (T : Type) where
  maxInserts : Nat
  minDuration : T
  maxDuration : T
  /-- Speech needed around a proposed window for the proposal to be kept. -/
  minTopic : T
  /-- No insertion starts before this time. -/
  avoidFirst : T
  /-- No insertion ends within this time of the end. -/
  avoidLast : T
  /-- Least distance from the end of one insertion to the start of the next. -/
  minGap : T

/-- Something about the settings that the user should know. -/
inductive Warning (T : Type) where
  | noInserts
  | invertedDurations (least greatest : T)
  | durationNotPositive
  | noToolTime
  | missingPath (key : String) (path : String)

namespace InsertRules
variable {T : Type} [TimeScale T]

def default : InsertRules T where
  maxInserts := 3
  minDuration := ofNat 4
  maxDuration := ofNat 5
  minTopic := ofNat 5
  avoidFirst := ofNat 6
  avoidLast := ofNat 8
  minGap := ofNat 10

def record : Record T (InsertRules T) :=
  let d : InsertRules T := default
  (Record.of "InsertRules" InsertRules.mk)
    |>.field (.defaulted "max_inserts" (.word 64 "usize") d.maxInserts)
    |>.field (.defaulted "min_duration" .real d.minDuration)
    |>.field (.defaulted "max_duration" .real d.maxDuration)
    |>.field (.defaulted "min_topic_sec" .real d.minTopic)
    |>.field (.defaulted "avoid_first" .real d.avoidFirst)
    |>.field (.defaulted "avoid_last" .real d.avoidLast)
    |>.field (.defaulted "min_gap" .real d.minGap)

def target (r : InsertRules T) : T := (r.minDuration + r.maxDuration) / ofNat 2

/-- A duration moved into the range, the upper end winning where the range is inverted. -/
def clampDuration (r : InsertRules T) (d : T) : T := earlier (later d r.minDuration) r.maxDuration

def warnings (r : InsertRules T) : List (Warning T) :=
  (if r.maxInserts = 0 then [.noInserts] else []) ++
  (if r.maxDuration < r.minDuration then [.invertedDurations r.minDuration r.maxDuration]
    else []) ++
  (if r.minDuration ≤ zero then [.durationNotPositive] else [])

end InsertRules

def Warning.message {T : Type} [Spelled T] : Warning T → String
  | .noInserts => "rules.max_inserts is 0; no insertions will be planned"
  | .invertedDurations least greatest =>
    "rules.min_duration (" ++ Spelled.plain least ++ ") exceeds rules.max_duration (" ++
      Spelled.plain greatest ++ ")"
  | .durationNotPositive => "rules.min_duration should be positive"
  | .noToolTime => "executor.tool_timeout_secs is 0; every tool call will time out"
  | .missingPath key path => key ++ " '" ++ path ++ "' does not exist"

end Montage
