import Montage.Json.Basic
import Montage.Time.Text
import Montage.Text.Quoted

/-!
# Printing JSON

The compact form has no blanks; the indented form puts each item on a line of its own, two blanks
deeper than the list or object that holds it.
-/

namespace Montage

variable {T : Type} [Spelled T]

/-- Text of a number. This is also its form where a number stands for a name. -/
def Number.text : Number T → String
  | .int i => toString i
  | .real x => Spelled.json x

namespace Json

def escape (c : Char) : List Char :=
  if c = '"' || c = '\\' then ['\\', c]
  else if c = '\n' then ['\\', 'n']
  else if c = '\r' then ['\\', 'r']
  else if c = '\t' then ['\\', 't']
  else if c = '\x08' then ['\\', 'b']
  else if c = '\x0c' then ['\\', 'f']
  else if c.toNat < 0x20 then
    ['\\', 'u', '0', '0'] ++ (if c.toNat < 0x10 then ['0'] else []) ++ Text.hex c.toNat
  else [c]

def quote (s : String) : String := String.ofList ('"' :: s.toList.flatMap escape ++ ['"'])

mutual

def compact : Json T → String
  | .null => "null"
  | .bool true => "true"
  | .bool false => "false"
  | .number n => n.text
  | .text s => quote s
  | .list items => "[" ++ compactItems items ++ "]"
  | .object ms => "\x7b" ++ compactMembers ms ++ "\x7d"

def compactItems : List (Json T) → String
  | [] => ""
  | [j] => j.compact
  | j :: k :: js => j.compact ++ "," ++ compactItems (k :: js)

def compactMembers : List (String × Json T) → String
  | [] => ""
  | [(k, j)] => quote k ++ ":" ++ j.compact
  | (k, j) :: m :: ms => quote k ++ ":" ++ j.compact ++ "," ++ compactMembers (m :: ms)

end

def blanks (depth : Nat) : String := String.ofList (List.replicate (2 * depth) ' ')

mutual

/-- The indented form of a value that stands `depth` levels deep. -/
def indented (depth : Nat) : Json T → String
  | .list [] => "[]"
  | .list (j :: js) =>
    "[\n" ++ indentedItems (depth + 1) (j :: js) ++ "\n" ++ blanks depth ++ "]"
  | .object [] => "\x7b\x7d"
  | .object (m :: ms) =>
    "\x7b\n" ++ indentedMembers (depth + 1) (m :: ms) ++ "\n" ++ blanks depth ++ "\x7d"
  | .null => "null"
  | .bool true => "true"
  | .bool false => "false"
  | .number n => n.text
  | .text s => quote s

def indentedItems (depth : Nat) : List (Json T) → String
  | [] => ""
  | [j] => blanks depth ++ j.indented depth
  | j :: k :: js => blanks depth ++ j.indented depth ++ ",\n" ++ indentedItems depth (k :: js)

def indentedMembers (depth : Nat) : List (String × Json T) → String
  | [] => ""
  | [(k, j)] => blanks depth ++ quote k ++ ": " ++ j.indented depth
  | (k, j) :: m :: ms =>
    blanks depth ++ quote k ++ ": " ++ j.indented depth ++ ",\n" ++ indentedMembers depth (m :: ms)

end

def pretty (j : Json T) : String := j.indented 0

end Json

end Montage
