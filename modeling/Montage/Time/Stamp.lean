import Montage.Json.Basic
import Montage.Text.Blank

/-!
# Timestamps

A document gives a time as a number of seconds or as a text of one to three clock fields between
colons: seconds, minutes and seconds, or hours, minutes and seconds. With more than one field, none
is negative, and every field behind the first is below sixty.
-/

namespace Montage.Stamp
open TimeScale
variable {T : Type} [TimeScale T]

def belowSixty (x : T) : Bool := zero ≤ x && x < ofNat 60

/-- The time that clock fields stand for. -/
def ofFields? : List T → Option T
  | [s] => some s
  | [m, s] => if zero ≤ m && belowSixty s then some (m * ofNat 60 + s) else none
  | [h, m, s] =>
    if zero ≤ h && belowSixty m && belowSixty s then some (h * ofNat 3600 + m * ofNat 60 + s)
    else none
  | _ => none

/-- The time of a text whose fields `field` reads. -/
def readWith? (field : String → Option T) (s : String) : Option T := do
  let s := Text.trim s
  if s = "" then none
  let fields ← (Text.splitAt ':' s).mapM fun f => field (Text.trim f)
  let t ← ofFields? fields
  if isFinite t then some t else none

def field? (s : String) : Option T := (Numeral.read? s).bind ofNumeral?

def read? (s : String) : Option T := readWith? field? s

/-- The time that a value gives, which is finite and not negative. -/
def ofJson? (j : Json T) : Option T := do
  let t ← match j with
    | .number n => some n.toReal
    | .text s => read? s
    | _ => none
  if isFinite t && zero ≤ t then some t else none

end Montage.Stamp
