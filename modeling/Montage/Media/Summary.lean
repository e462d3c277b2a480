import Montage.Json.Reader
import Montage.Program

/-!
# What is known of a media file

A media file is described by the prober in a JSON document. The planner needs the length of the file
and the size of its first picture stream.
-/

namespace Montage
open TimeScale

structure MediaSummary (T : Type) where
  duration : Option T
  width : Option Nat
  height : Option Nat

namespace MediaSummary
variable {T : Type}

def orientation (m : MediaSummary T) : String :=
  match m.width, m.height with
  | some w, some h => if w < h then "portrait" else if h = w then "square" else "landscape"
  | _, _ => "landscape"

structure Stream where
  codecType : Option String
  width : Option Nat
  height : Option Nat

structure Description where
  duration : Option String
  streams : List Stream

variable [TimeScale T]

def formatRecord : Record T (Option String) :=
  (Record.of "FfprobeFormat" id) |>.field (.optionalByName "duration" (.text "a string"))

def streamRecord : Record T Stream :=
  (Record.of "FfprobeStream" Stream.mk)
    |>.field (.optionalByName "codec_type" (.text "a string"))
    |>.field (.optionalByName "width" (.word 32 "u32"))
    |>.field (.optionalByName "height" (.word 32 "u32"))

def record : Record T Description :=
  (Record.of "FfprobeOutput" Description.mk)
    |>.field (.defaulted "format" formatRecord.reader none)
    |>.field (.defaulted "streams" (.list streamRecord.reader) [])

def duration? (s : String) : Option T := do
  let t ← ofNumeral? (← Numeral.read? (Text.trim s))
  if isFinite t && zero ≤ t then some t else none

def ofDescription (d : Description) : MediaSummary T :=
  let picture := d.streams.find? fun s => s.codecType = some "video"
  ⟨d.duration.bind duration?, picture.bind Stream.width, picture.bind Stream.height⟩

variable [Spelled T]

def ofText (s : String) : Except Failure (MediaSummary T) :=
  match ((record : Record T Description).reader.ofText s) with
  | .ok d => .ok (ofDescription d)
  | .error e => .error (.tool "ffprobe" ("JSON parse error: " ++ e.message))

/-- The call that has a file described. -/
def command (prober media : Path) : Command where
  program := prober
  arguments := ["-v", "error", "-print_format", "json", "-show_format", "-show_streams", media.text]
  limit := Command.defaultLimit
  tail := Command.defaultTail

/-- What the prober says of a file, and what it logs. -/
def probe (h : Host) (prober media : Path) (fs : Files) :
    Except Failure (MediaSummary T) × List Log.Line :=
  let reply := (command prober media).execute h fs
  match reply.answer with
  | .error e => (.error e, reply.log)
  | .ok out => (ofText out.output, reply.log)

end MediaSummary

end Montage
