import Montage.Time.Scale

/-!
# JSON values

Plans, transcripts, slots and settings are JSON documents. A number is a whole number or a number of
the time scale; an object is a list of members, in ascending order of their keys and with one member
a key. `Members.put` keeps both.
-/

namespace Montage
open TimeScale

/-- A number of a document. Whole numbers are written without point and exponent. -/
inductive Number (T : Type) where
  | int (i : Int)
  | real (x : T)
  deriving BEq, Repr

inductive Json (T : Type) where
  | null
  | bool (b : Bool)
  | number (n : Number T)
  | text (s : String)
  | list (items : List (Json T))
  | object (members : List (String × Json T))
  deriving BEq, Repr, Inhabited

abbrev Members (T : Type) := List (String × Json T)

variable {T : Type}

def Number.toReal [TimeScale T] : Number T → T
  | .int i => ofInt i
  | .real x => x

namespace Members

def get? (key : String) (ms : Members T) : Option (Json T) := ms.lookup key

def has (key : String) (ms : Members T) : Bool := (ms.get? key).isSome

/-- With `v` under `key`, in the place of the value that was there, or else before the first greater
key. -/
def put (key : String) (v : Json T) : Members T → Members T
  | [] => [(key, v)]
  | (k, w) :: ms =>
    if k = key then (key, v) :: ms
    else if key < k then (key, v) :: (k, w) :: ms
    else (k, w) :: put key v ms

def remove (key : String) (ms : Members T) : Members T := ms.filter fun m => m.1 ≠ key

/-- Members in the order of their keys; of several under one key, the last. -/
def ofList (ms : List (String × Json T)) : Members T :=
  ms.foldl (fun acc (k, v) => acc.put k v) []

/-- The first value other than null under one of `keys`, which are in order of priority. -/
def firstOf? (keys : List String) (ms : Members T) : Option (Json T) :=
  keys.findSome? fun k => match ms.get? k with
    | some .null => none
    | v => v

theorem get?_put_self (key : String) (v : Json T) (ms : Members T) :
    (ms.put key v).get? key = some v := by
  fun_induction put key v ms with
  | case1 => simp [get?]
  | case2 w ms => simp [get?]
  | case3 k w ms => simp [get?]
  | case4 k w ms hne _ ih =>
    have hk : (key == k) = false := by simpa using fun h : key = k => hne h.symm
    simp only [get?, List.lookup_cons, hk] at ih ⊢
    exact ih

end Members

namespace Json

def get? (key : String) : Json T → Option (Json T)
  | .object ms => Members.get? key ms
  | _ => none

def asText? : Json T → Option String
  | .text s => some s
  | _ => none

def asList? : Json T → Option (List (Json T))
  | .list items => some items
  | _ => none

def asObject? : Json T → Option (Members T)
  | .object ms => some ms
  | _ => none

def nat (n : Nat) : Json T := .number (.int n)

/-- A number of the scale. One that is not finite has no JSON form and is written as null. -/
def real [TimeScale T] (x : T) : Json T := if isFinite x then .number (.real x) else .null

def texts (ss : List String) : Json T := .list (ss.map .text)

/-- An object with the given members, which may come in any order. -/
def record (ms : List (String × Json T)) : Json T := .object (Members.ofList ms)

end Json

end Montage
