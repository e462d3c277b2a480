import Montage.Decimal.Literal
import Montage.Json.Basic
import Montage.Text.Hex

/-!
# JSON syntax

A text is read in two steps. `Token.scan` cuts it into tokens; `Node.ofTokens?` builds the syntax
tree, one token at a time, keeping the lists and objects that are still open on a stack. The tree
keeps what the text says before it is judged: members in the order they are written, numbers as
their digits, strings as code units, where half of a surrogate pair may stand alone.

`Node.value?` is the value of a whole document, and fails where a number lies outside the scale, a
string is no text, or lists and objects are nested too deeply.
-/

namespace Montage

/-- The syntax of a value. -/
inductive Node where
  | null
  | bool (b : Bool)
  | number (n : Literal)
  | text (units : List Nat)
  | list (items : List Node)
  | object (members : List (List Nat × Node))
  deriving Inhabited

namespace Literal

variable {T : Type} [TimeScale T]

/-- Whole numbers are kept as such up to 64 bits. A negative zero is no whole number. -/
def value? (n : Literal) : Option (Number T) :=
  let d := n.decimal
  if n.isWhole && !d.negative && d.digits ≤ TimeScale.wordMax then some (.int d.digits)
  else if n.isWhole && d.negative && 0 < d.digits && d.digits ≤ Nat.pow 2 63 then
    some (.int (-d.digits))
  else (TimeScale.ofLiteral? n).map .real

end Literal

namespace Units

/-- The character that a one-letter escape stands for. -/
def ofEscape? (c : Char) : Option Nat :=
  if c = '"' || c = '\\' || c = '/' then some c.toNat
  else if c = 'b' then some 8
  else if c = 'f' then some 12
  else if c = 'n' then some 10
  else if c = 'r' then some 13
  else if c = 't' then some 9
  else none

/-- Code units of what stands between the quotes of a string. A control character is refused. -/
def read? : List Char → Option (List Nat)
  | [] => some []
  | '\\' :: 'u' :: a :: b :: c :: d :: s => do
    let u ← Text.hexValue? [a, b, c, d]
    let rest ← read? s
    return u :: rest
  | '\\' :: c :: s => do
    let u ← ofEscape? c
    let rest ← read? s
    return u :: rest
  | c :: s => if c.toNat < 0x20 || c = '\\' then none else (read? s).map (c.toNat :: ·)

def isHigh (u : Nat) : Bool := 0xd800 ≤ u && u < 0xdc00
def isLow (u : Nat) : Bool := 0xdc00 ≤ u && u < 0xe000

/-- Characters of a sequence of code units, where a high surrogate has to be followed by a low one
and a low one to follow a high one. -/
def chars? : List Nat → Option (List Char)
  | [] => some []
  | [u] => if isHigh u || isLow u then none else some [Char.ofNat u]
  | u :: v :: s =>
    if isHigh u then
      if isLow v then
        (chars? s).map (Char.ofNat (0x10000 + (u - 0xd800) * 0x400 + (v - 0xdc00)) :: ·)
      else none
    else if isLow u then none
    else (chars? (v :: s)).map (Char.ofNat u :: ·)

def text? (units : List Nat) : Option String := (chars? units).map String.ofList

end Units

/-- The pieces of a JSON text. A word is a run of other characters than blanks, quotes and
punctuation. -/
inductive Token where
  | listStart
  | listEnd
  | objectStart
  | objectEnd
  | comma
  | colon
  | word (spelling : List Char)
  | text (units : List Nat)

namespace Token

def isBlank (c : Char) : Bool := c = ' ' || c = '\n' || c = '\r' || c = '\t'

def punctuation? (c : Char) : Option Token :=
  if c = '[' then some .listStart
  else if c = ']' then some .listEnd
  else if c = '\x7b' then some .objectStart
  else if c = '\x7d' then some .objectEnd
  else if c = ',' then some .comma
  else if c = ':' then some .colon
  else none

/-- Where the scanner stands; what it has seen of a word or string is held in reverse. -/
inductive Mode where
  | between
  | word (seen : List Char)
  | text (seen : List Char)
  | escape (seen : List Char)

/-- The token that a mode has gathered when a word ends. -/
def Mode.finished : Mode → List Token
  | .word seen => [.word seen.reverse]
  | _ => []

/-- The tokens of a text. Fails on a string that is not closed or is no sequence of code units. -/
def scan : Mode → List Char → Option (List Token)
  | .between, [] => some []
  | .word seen, [] => some [.word seen.reverse]
  | .text _, [] => none
  | .escape _, [] => none
  | .text seen, c :: s =>
    if c = '"' then do
      let units ← Units.read? seen.reverse
      let rest ← scan .between s
      return .text units :: rest
    else scan (if c = '\\' then .escape (c :: seen) else .text (c :: seen)) s
  | .escape seen, c :: s => scan (.text (c :: seen)) s
  | .between, c :: s =>
    if isBlank c then scan .between s
    else if c = '"' then scan (.text []) s
    else match punctuation? c with
      | some t => (scan .between s).map (t :: ·)
      | none => scan (.word [c]) s
  | .word seen, c :: s =>
    if isBlank c then (scan .between s).map (.word seen.reverse :: ·)
    else if c = '"' then (scan (.text []) s).map (.word seen.reverse :: ·)
    else match punctuation? c with
      | some t => (scan .between s).map fun ts => .word seen.reverse :: t :: ts
      | none => scan (.word (c :: seen)) s

end Token

namespace Node

def ofWord? (w : List Char) : Option Node :=
  if w = ['n', 'u', 'l', 'l'] then some .null
  else if w = ['t', 'r', 'u', 'e'] then some (.bool true)
  else if w = ['f', 'a', 'l', 's', 'e'] then some (.bool false)
  else (Literal.read? w).map .number

/-- A list or object that is still open, with what it holds so far in reverse. -/
inductive Frame where
  | list (items : List Node)
  | object (members : List (List Nat × Node)) (key : List Nat)

/-- What may come next. -/
inductive Stage where
  | value (open_ : List Frame)
  | itemOrEnd (open_ : List Frame)
  | keyOrEnd (open_ : List Frame)
  | key (open_ : List Frame) (members : List (List Nat × Node))
  | colon (open_ : List Frame) (members : List (List Nat × Node)) (key : List Nat)
  | behind (v : Node) (open_ : List Frame)

def Stage.start (frames : List Frame) : Token → Option Stage
  | .listStart => some (.itemOrEnd frames)
  | .objectStart => some (.keyOrEnd frames)
  | .word w => (ofWord? w).map (.behind · frames)
  | .text units => some (.behind (.text units) frames)
  | _ => none

def Stage.step : Stage → Token → Option Stage
  | .value frames, t => Stage.start frames t
  | .itemOrEnd frames, .listEnd => some (.behind (.list []) frames)
  | .itemOrEnd frames, t => Stage.start (.list [] :: frames) t
  | .keyOrEnd frames, .objectEnd => some (.behind (.object []) frames)
  | .keyOrEnd frames, .text k => some (.colon frames [] k)
  | .key frames ms, .text k => some (.colon frames ms k)
  | .colon frames ms k, .colon => some (.value (.object ms k :: frames))
  | .behind v (.list vs :: frames), .comma => some (.value (.list (v :: vs) :: frames))
  | .behind v (.list vs :: frames), .listEnd => some (.behind (.list (v :: vs).reverse) frames)
  | .behind v (.object ms k :: frames), .comma => some (.key frames ((k, v) :: ms))
  | .behind v (.object ms k :: frames), .objectEnd =>
    some (.behind (.object ((k, v) :: ms).reverse) frames)
  | _, _ => none

/-- The tree that a whole sequence of tokens spells. -/
def ofTokens? (ts : List Token) : Option Node :=
  match ts.foldlM Stage.step (.value []) with
  | some (.behind v []) => some v
  | _ => none

/-- The tree of a JSON text. -/
def ofText? (s : String) : Option Node := (Token.scan .between s.toList).bind ofTokens?

mutual

/-- How many lists and objects are nested in one another. -/
def depth : Node → Nat
  | .list items => depthItems items + 1
  | .object ms => depthMembers ms + 1
  | _ => 0

def depthItems : List Node → Nat
  | [] => 0
  | n :: ns => max n.depth (depthItems ns)

def depthMembers : List (List Nat × Node) → Nat
  | [] => 0
  | (_, n) :: ns => max n.depth (depthMembers ns)

end

def depthLimit : Nat := 127

section
variable {T : Type} [TimeScale T]

mutual

/-- The value of a tree, whatever its depth. -/
def shallow? : Node → Option (Json T)
  | .null => some .null
  | .bool b => some (.bool b)
  | .number n => n.value?.map .number
  | .text units => (Units.text? units).map .text
  | .list items => (shallowItems? items).map .list
  | .object ms => (shallowMembers? ms).map Json.record

def shallowItems? : List Node → Option (List (Json T))
  | [] => some []
  | n :: ns => do return (← n.shallow?) :: (← shallowItems? ns)

def shallowMembers? : List (List Nat × Node) → Option (List (String × Json T))
  | [] => some []
  | (k, n) :: ns => do return (← Units.text? k, ← n.shallow?) :: (← shallowMembers? ns)

end

def value? (n : Node) : Option (Json T) := if depthLimit < n.depth then none else n.shallow?

end

end Node

end Montage
