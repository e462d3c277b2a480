import Montage.Text.Hex

/-!
# Log lines

The program reports what it does in log lines. Each has a level and an origin, the part of the
program that it comes from.
-/

namespace Montage.Log

inductive Level where
  | trace
  | debug
  | info
  | warn
  | error
  deriving DecidableEq, Repr

/-- From the least to the most severe. -/
def Level.rank : Level → Nat
  | .trace => 0
  | .debug => 1
  | .info => 2
  | .warn => 3
  | .error => 4

def Level.name : Level → String
  | .trace => "TRACE"
  | .debug => "DEBUG"
  | .info => "INFO"
  | .warn => "WARN"
  | .error => "ERROR"

structure Line where
  level : Level
  origin : String
  message : String
  deriving DecidableEq, Repr

def Line.text (l : Line) : String := l.level.name ++ " " ++ l.origin ++ ": " ++ l.message

/-- Control characters of one byte that move or colour what a terminal shows: bell, backspace, form
feed, escape and delete. -/
def steering : List Nat := [0x7, 0x8, 0xc, 0x1b, 0x7f]

/-- A character as a terminal is given it. The characters that steer it are spelled out, and so are
the control characters above them. -/
def disarmed (c : Char) : List Char :=
  let n := c.toNat
  if steering.contains n then
    ['\\', 'x'] ++ Text.hex (n / 16) ++ Text.hex (n % 16)
  else if 0x80 ≤ n && n ≤ 0x9f then ['\\', 'u', '\x7b'] ++ Text.hex n ++ ['\x7d']
  else [c]

/-- The line as a terminal is given it. -/
def Line.disarm (l : Line) : Line :=
  { l with message := String.ofList (l.message.toList.flatMap disarmed) }

end Montage.Log
