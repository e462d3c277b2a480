import Montage.Failure
import Montage.Log.Basic
import Montage.Time.Stamp
import Montage.Json.Reader

/-!
# Transcripts

What is said in a video, and when: a list of stretches of speech. The ends of the stretches are the
places at which an insertion cuts no sentence in two.
-/

namespace Montage
open TimeScale

structure Segment (T : Type) where
  start : T
  stop : T
  text : String
  deriving BEq, Repr

structure Transcript (T : Type) where
  text : String
  segments : List (Segment T)
  deriving BEq, Repr

namespace Transcript
variable {T : Type} [TimeScale T]

def empty : Transcript T := ⟨"", []⟩

/-- The transcript of some segments, whose texts make up its own. -/
def ofSegments (ss : List (Segment T)) : Transcript T where
  text := " ".intercalate ((ss.map fun s => Text.trim s.text).filter (· ≠ ""))
  segments := ss

/-- The segment of an entry that has a start. One that ends before it starts lasts no time. -/
def segmentOf? (j : Json T) : Option (Segment T) := do
  let start ← (j.get? "start").bind Stamp.ofJson?
  let stop := ((j.get? "end").bind Stamp.ofJson?).filter fun t => start ≤ t
  return ⟨start, stop.getD start, ((j.get? "text").bind Json.asText?).getD ""⟩

/-- The segments of a list of entries, in order of their starts. -/
def segmentsOf (items : List (Json T)) : List (Segment T) :=
  (items.filterMap segmentOf?).mergeSort fun a b => ascending a.start b.start

/-- The transcript of a document: an object with a list of segments, or that list alone. -/
def ofJson : Json T → Except Failure (Transcript T)
  | .list items => .ok (ofSegments (segmentsOf items))
  | .object ms =>
    let read := ofSegments (segmentsOf (((Members.get? "segments" ms).bind Json.asList?).getD []))
    match (Members.get? "text" ms).bind Json.asText? with
    | some s => .ok (if Text.isBlankText s then read else { read with text := s })
    | none => .ok read
  | _ => .error (.validation "transcript must be an object or a segment array")

def ofText (s : String) : Except Failure (Transcript T) :=
  match (Json.ofText s : Except Fault (Json T)) with
  | .ok j => ofJson j
  | .error e => .error (.validation ("transcript is not valid JSON: " ++ e.message))

def load (fs : Files) (p : Path) : Except Failure (Transcript T) :=
  match fs.readText p with
  | .ok s => ofText s
  | .error e => .error (.io e)

def boundaries (t : Transcript T) : List T := t.segments.map Segment.stop

/-- What is said in the segments between `a` and `b`, cut to `n` characters. -/
def textBetween (t : Transcript T) (a b : T) (n : Nat) : String :=
  let inside := t.segments.filter fun s => a ≤ s.start && s.stop ≤ b
  Text.take n (Text.trim (" ".intercalate (inside.map Segment.text)))

/-- Seconds of speech between `a` and `b`. -/
def speechWithin (t : Transcript T) (a b : T) : T :=
  (t.segments.map fun s => later (earlier s.stop b - later s.start a) zero).foldl (· + ·) zero

/-- Where the transcript of a media file stands: beside it, under its name with an ending. -/
def sidecar (media : Path) : Path :=
  media.withFileName (media.fileName?.getD "" ++ ".transcript.json")

def origin : String := "cf_plan::transcript"

def beside (fs : Files) (media : Path) : Except Failure (Transcript T) := load fs (sidecar media)

def logBeside (media : Path) : List Log.Line :=
  [⟨.debug, origin, "Reading transcript sidecar " ++ (sidecar media).text⟩]

end Transcript

end Montage
