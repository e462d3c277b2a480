import Montage.Failure
import Montage.Log.Basic
import Montage.Decimal.Layout
import Montage.Text.Utf8

/-!
# Programs

The media tool and the prober are programs of their own. What starting a program does is up to the
host; what is made of it is said here. A program has to end within its limit of time with a status
of zero, and the end of its diagnostics is kept if it does not.
-/

namespace Montage

inductive Ending where
  | exited (status : Nat)
  | killed (signal : Nat)
  deriving DecidableEq, Repr

namespace Ending

/-- The names of the signals that end a program, by number. -/
def signalNames : List (Nat × String) := [
  (1, "SIGHUP"), (2, "SIGINT"), (3, "SIGQUIT"), (4, "SIGILL"), (5, "SIGTRAP"), (6, "SIGABRT"),
  (7, "SIGBUS"), (8, "SIGFPE"), (9, "SIGKILL"), (10, "SIGUSR1"), (11, "SIGSEGV"), (12, "SIGUSR2"),
  (13, "SIGPIPE"), (14, "SIGALRM"), (15, "SIGTERM"), (16, "SIGSTKFLT"), (24, "SIGXCPU"),
  (25, "SIGXFSZ"), (26, "SIGVTALRM"), (27, "SIGPROF"), (29, "SIGIO"), (30, "SIGPWR"),
  (31, "SIGSYS")]

def succeeded : Ending → Bool
  | exited status => status = 0
  | killed _ => false

def text : Ending → String
  | exited status => "exit status: " ++ toString status
  | killed signal =>
    "signal: " ++ toString signal ++
      match signalNames.lookup signal with
      | some name => " (" ++ name ++ ")"
      | none => ""

end Ending

/-- What comes of starting a program. -/
inductive Launch where
  | refused (e : IoError)
  /-- Still running when its time was over. -/
  | overdue
  | finished (ending : Ending) (output diagnostics : ByteArray) (files : Files)

/-- What can start programs: a program with its arguments and its limit in thousandths of a second.
-/
structure Host where
  launch : Path → List String → Option Nat → Files → Launch

/-- What a program that ended well has left. -/
structure Output where
  ending : Ending
  output : String
  diagnostics : String

structure Command where
  program : Path
  arguments : List String
  /-- In thousandths of a second. -/
  limit : Nat
  /-- How many characters of the diagnostics are kept. -/
  tail : Nat

def Text.takeLast (n : Nat) (s : String) : String :=
  let cs := s.toList
  String.ofList (cs.drop (cs.length - n))

namespace Command

def defaultLimit : Nat := 900000

def defaultTail : Nat := 3000

/-- The name of the program in messages. -/
def label (c : Command) : String := c.program.fileName?.getD c.program.text

def seconds (n : Nat) : String :=
  let behind := ((padded 3 (n % 1000)).toList.reverse.dropWhile (· = '0')).reverse
  toString (n / 1000) ++ if behind.isEmpty then "" else "." ++ String.ofList behind

def origin : String := "cf_av::command"

/-- What a call leaves behind. -/
structure Reply where
  answer : Except Failure Output
  files : Files
  log : List Log.Line

/-- What a program is given are texts that a zero byte ends, so none can be inside. -/
def canBeGiven (c : Command) : Bool :=
  (c.program.text :: c.arguments).all fun s => !s.toList.contains '\x00'

/-- Start the program, if it can be given what it is called with. -/
def launch (h : Host) (c : Command) (fs : Files) : Launch :=
  if c.canBeGiven then h.launch c.program c.arguments (some c.limit) fs
  else .refused (.other "nul byte found in provided data")

def execute (h : Host) (c : Command) (fs : Files) : Reply :=
  let fail (message : String) : Except Failure Output := .error (.tool c.label message)
  match c.launch h fs with
  | .refused e => ⟨fail ("failed to spawn: " ++ e.message), fs, []⟩
  | .overdue => ⟨fail ("timed out after " ++ seconds c.limit ++ "s"), fs, []⟩
  | .finished ending output diagnostics fs =>
    let diagnostics := Text.Utf8.decode diagnostics
    if ending.succeeded then ⟨.ok ⟨ending, Text.Utf8.decode output, diagnostics⟩, fs, []⟩
    else
      let kept := Text.takeLast c.tail (Text.trim diagnostics)
      ⟨fail ("exited with " ++ ending.text ++ ": " ++ kept), fs,
        [⟨.error, origin, c.label ++ " exited with " ++ ending.text ++ ":\n" ++ kept⟩]⟩

end Command

end Montage
