import Montage.Decimal.Basic
import Montage.Log.Basic
import Montage.Log.Pattern
import Montage.Text.Alphanumeric
import Montage.Text.Blank
import Montage.Text.Bytes
import Montage.Text.Lowercase

/-!
# Log directives

A directive names log lines and says how severe they have to be. It is written as a level, as an
origin, or as `origin[span{field=value}]=level`, of which every part but one may be missing. A span
is a stretch of work that lines are logged in; a field is a piece of a line. The program has no
spans, and its lines have one field, the message.
-/

namespace Montage.Log

/-- The least severe level that is shown, or nothing at all. -/
abbrev Threshold := Option Level

namespace Threshold

/-- The thresholds by their names. Each can also be written as its number in this list. -/
def names : List (String × Threshold) := [
  ("off", none), ("error", some .error), ("warn", some .warn), ("info", some .info),
  ("debug", some .debug), ("trace", some .trace)]

/-- The threshold of a number, or of a name whatever its case. -/
def ofText? (s : String) : Option Threshold :=
  match Decimal.natural? s.toList with
  | some n => (names.map Prod.snd)[n]?
  | none => names.lookup (Text.lowercaseAscii s)

def shows (t : Threshold) (l : Level) : Bool := t.any fun least => least.rank ≤ l.rank

end Threshold

/-- A field that a directive asks for. -/
structure Field where
  name : String
  /-- The field has to have a certain value. -/
  valued : Bool
  deriving DecidableEq, Repr

/-- The field of a text. A value is a number or a pattern. -/
def Field.ofText (s : String) : Except Pattern.Fault Field :=
  let name := String.ofList (s.toList.takeWhile (· ≠ '='))
  match s.toList.dropWhile (· ≠ '=') with
  | [] => .ok ⟨name, false⟩
  | _ :: behind =>
    let value := behind.takeWhile (· ≠ '=')
    match Numeral.read? (String.ofList value), Pattern.fault? value with
    | none, some e => .error e
    | _, _ => .ok ⟨name, true⟩

def Field.message : Field := ⟨"message", false⟩

structure Directive where
  /-- How the origins of its lines begin. -/
  origin : String
  span : Option String
  field : Option Field
  threshold : Threshold
  deriving DecidableEq, Repr

namespace Directive

/-- Why a text is no directive. -/
inductive Flaw where
  | malformed
  | badValue (e : Pattern.Fault)
  | unknownLevel
  deriving DecidableEq, Repr

def Flaw.message : Flaw → String
  | .malformed => "invalid filter directive"
  | .badValue e => "invalid field filter: " ++ e.message
  | .unknownLevel =>
    "error parsing level filter: expected one of \"off\", \"error\", \"warn\", \"info\", " ++
      "\"debug\", \"trace\", or a number 0-5"

def ofOrigin (origin : String) : Directive := ⟨origin, none, none, some .trace⟩

/-- What is left to read of a directive. The signs that part it are looked for in the text without
the blanks at its ends, the parts are cut out of the whole text at the same numbers of bytes. -/
structure Rest where
  signs : List Char
  text : List Char

namespace Rest

def drop (r : Rest) (n : Nat) : List Char := Text.Chars.dropBytes n r.text

/-- The part before the first of the signs that are looked for, that sign, and what follows. -/
def cut? (r : Rest) (sought : List Char) : Option (String × Char × Rest) :=
  let n := Text.Chars.bytes (r.signs.takeWhile (!sought.contains ·))
  match r.signs.dropWhile (!sought.contains ·) with
  | [] => none
  | c :: signs =>
    some (String.ofList (Text.Chars.takeBytes n r.text), c, ⟨signs, r.drop (n + c.utf8Size)⟩)

end Rest

/-- With the level that a text names. No text stands for all levels. -/
def withLevel (d : Directive) (level : String) : Except Flaw Directive :=
  if level = "" then .ok { d with threshold := some .trace }
  else match Threshold.ofText? level with
    | some t => .ok { d with threshold := t }
    | none => .error .unknownLevel

/-- Behind the closing bracket: nothing, or a level. -/
def readEnd (d : Directive) (r : Rest) : Except Flaw Directive :=
  match r.signs with
  | [] => .ok d
  | c :: _ => if c = '=' then d.withLevel (String.ofList (r.drop 1)) else .error .malformed

/-- Behind the opening brace: a field, and the two closing signs. -/
def readField (d : Directive) (r : Rest) : Except Flaw Directive :=
  match r.cut? ['\x7d'] with
  | none => .error .malformed
  | some (text, _, r) =>
    if text = "" then .error .malformed
    else match Field.ofText text, r.signs with
      | .error e, _ => .error (.badValue e)
      | .ok field, ']' :: signs => readEnd { d with field := some field } ⟨signs, r.drop 1⟩
      | .ok _, _ => .error .malformed

/-- Behind the opening bracket: a span, a field, or a span with a field. The span without a field
may have no name. -/
def readSpan (d : Directive) (r : Rest) : Except Flaw Directive :=
  match r.cut? [']', '\x7b'] with
  | none => .error .malformed
  | some (name, sign, r) =>
    if sign = ']' then readEnd { d with span := some name } r
    else readField { d with span := if name = "" then none else some name } r

/-- The first character of a directive that does not begin with a bracket. -/
def canBegin (c : Char) : Bool := c = '-' || c = ':' || c = '_' || Text.isAlphanumeric c

/-- The directive of a text. A text without signs that is no level is an origin. -/
def ofText (s : String) : Except Flaw Directive :=
  let r : Rest := ⟨Text.Chars.trim s.toList, s.toList⟩
  match r.signs with
  | [] => .error .malformed
  | '[' :: signs => readSpan (.ofOrigin "") ⟨signs, r.drop 1⟩
  | c :: _ =>
    if !canBegin c then .error .malformed
    else match r.cut? ['=', '['] with
      | none => .ok (match Threshold.ofText? s with
        | some t => ⟨"", none, none, t⟩
        | none => .ofOrigin s)
      | some (origin, sign, r) =>
        if sign = '=' then (Directive.ofOrigin origin).withLevel (String.ofList r.text)
        else readSpan (.ofOrigin origin) r

/-- A line that the directive is about. Its origin begins as the directive says, it is in no span,
and it has no field but the message. -/
def concerns (d : Directive) (l : Line) : Bool :=
  d.origin.toList.isPrefixOf l.origin.toList && d.span.isNone && d.field.all (· = .message)

/-- Directives in the order of how much they ask for: first by the length of the origin, then
whether there is a field. -/
def outdoes (a b : Directive) : Bool :=
  b.origin.length < a.origin.length ||
    (b.origin.length = a.origin.length && a.field.isSome && b.field.isNone)

end Directive

end Montage.Log
