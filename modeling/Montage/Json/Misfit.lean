import Montage.Json.Printer

/-!
# Values that do not fit

What can be wrong with a JSON value that is read as a number, a text, a list or a record, and how
the message about it is worded.
-/

namespace Montage

/-- What stands where something else is wanted. -/
inductive Found (T : Type) where
  | null
  | bool (b : Bool)
  | int (i : Int)
  | real (x : T)
  | text (s : String)
  | list
  | object
  deriving Repr

def Json.found {T : Type} : Json T → Found T
  | .null => .null
  | .bool b => .bool b
  | .number (.int i) => .int i
  | .number (.real x) => .real x
  | .text s => .text s
  | .list _ => .list
  | .object _ => .object

/-- Why a value does not fit. -/
inductive Misfit (T : Type) where
  | wrongType (found : Found T) (wanted : String)
  | wrongValue (found : Found T) (wanted : String)
  | wrongLength (count : Nat) (wanted : String)
  | missing (field : String)
  | repeated (field : String)
  | noVariant (name : String)
  | notWhole (x : T)
  | refused (reason : String)
  deriving Repr

section
variable {T : Type} [Spelled T]

/-- A number with a point, also where the plain form has none. -/
def pointed (x : T) : String :=
  let s := Spelled.plain x
  if s.toList.contains '.' then s else s ++ ".0"

def Found.describe : Found T → String
  | .null => "null"
  | .bool true => "boolean `true`"
  | .bool false => "boolean `false`"
  | .int i => "integer `" ++ toString i ++ "`"
  | .real x => "floating point `" ++ pointed x ++ "`"
  | .text s => "string " ++ Text.quoted s
  | .list => "sequence"
  | .object => "map"

def Misfit.message : Misfit T → String
  | .wrongType found wanted => "invalid type: " ++ found.describe ++ ", expected " ++ wanted
  | .wrongValue found wanted => "invalid value: " ++ found.describe ++ ", expected " ++ wanted
  | .wrongLength count wanted => "invalid length " ++ toString count ++ ", expected " ++ wanted
  | .missing field => "missing field `" ++ field ++ "`"
  | .repeated field => "duplicate field `" ++ field ++ "`"
  | .noVariant name => "data did not match any variant of untagged enum " ++ name
  | .notWhole x => "expected a non-negative integer, got " ++ Spelled.plain x
  | .refused reason => reason

end

end Montage
