import Montage.Json.Misfit
import Montage.Json.Node

/-!
# Reading values into types

A reader turns a JSON value into a value of a type, or says why it does not fit. A record is read
from an object, where its fields come under their names and unknown members are passed over, or from
a list, where they come in the order of their declaration.

The members of an object are read in the order they stand in, so that the first of them that does
not fit is the one reported; a field that is missing is reported only after that, in the order of
declaration.

Readers also work on the text of a document. There the members that no field asks for need to be
well-formed, but may hold numbers and strings that have no value.
-/

namespace Montage

/-- Which parts of a document a reader looks at. -/
inductive Shape where
  | whole
  | list (items : Shape)
  /-- Only the members under these names. -/
  | record (fields : List (List String × Shape))
  deriving Inhabited

/-- A way to read a value of type `α`. -/
structure Reader (T α : Type) where
  shape : Shape
  read : Json T → Except (Misfit T) α

namespace Reader
variable {T α β : Type}

def any : Reader T (Json T) := ⟨.whole, .ok⟩

def text (wanted : String) : Reader T String where
  shape := .whole
  read
    | .text s => .ok s
    | j => .error (.wrongType j.found wanted)

def bool : Reader T Bool where
  shape := .whole
  read
    | .bool b => .ok b
    | j => .error (.wrongType j.found "a boolean")

def real [TimeScale T] : Reader T T where
  shape := .whole
  read
    | .number n => .ok n.toReal
    | j => .error (.wrongType j.found "f64")

/-- A natural number below `2 ^ bits`, written without point and exponent. -/
def word (bits : Nat) (wanted : String) : Reader T Nat where
  shape := .whole
  read
    | .number (.int i) =>
      if 0 ≤ i && i < Nat.pow 2 bits then .ok i.toNat else .error (.wrongValue (.int i) wanted)
    | j => .error (.wrongType j.found wanted)

def optional (r : Reader T α) : Reader T (Option α) where
  shape := r.shape
  read
    | .null => .ok none
    | j => (r.read j).map some

def list (r : Reader T α) : Reader T (List α) where
  shape := .list r.shape
  read
    | .list items => items.mapM r.read
    | j => .error (.wrongType j.found "a sequence")

/-- A reader whose result has to pass a further reading. -/
def andThen (r : Reader T α) (f : α → Except (Misfit T) β) : Reader T β where
  shape := r.shape
  read j := (r.read j).bind f

end Reader

/-- What stands for a field that is not there. -/
inductive Absent (α : Type) where
  | refused
  | default (a : α)
  /-- A default in an object, where the other fields are named; a list has to hold the field. -/
  | defaultByName (a : α)

/-- A named part of a record. -/
structure Field (T α : Type) where
  name : String
  aliases : List String
  reader : Reader T α
  absent : Absent α

namespace Field
variable {T α : Type}

def required (name : String) (r : Reader T α) : Field T α := ⟨name, [], r, .refused⟩

def defaulted (name : String) (r : Reader T α) (a : α) : Field T α := ⟨name, [], r, .default a⟩

/-- A field that null or its absence leaves empty. -/
def optional (name : String) (r : Reader T α) : Field T (Option α) :=
  ⟨name, [], r.optional, .default none⟩

/-- A field that null or, in an object, its absence leaves empty. -/
def optionalByName (name : String) (r : Reader T α) : Field T (Option α) :=
  ⟨name, [], r.optional, .defaultByName none⟩

def names (f : Field T α) : List String := f.name :: f.aliases

end Field

/-- A field without the type of what it holds. -/
structure FieldCheck (T : Type) where
  name : String
  names : List String
  shape : Shape
  check : Json T → Except (Misfit T) Unit

/-- A record under construction: the fields so far, and the value they determine. -/
structure Record (T α : Type) where
  title : String
  fields : List (FieldCheck T)
  /-- The value, from the parts found under the names of fields. In a list the number of all fields
  is known. -/
  build : Option Nat → (String → Option (Json T)) → Except (Misfit T) α

namespace Record
variable {T α β : Type}

def of (title : String) (a : α) : Record T α := ⟨title, [], fun _ _ => .ok a⟩

def elements (n : Nat) : String := toString n ++ (if n = 1 then " element" else " elements")

/-- One field more, whose value the one built so far is applied to. -/
def field (r : Record T (α → β)) (f : Field T α) : Record T β where
  title := r.title
  fields := r.fields ++
    [⟨f.name, f.names, f.reader.shape, fun j => (f.reader.read j).map fun _ => ()⟩]
  build places find := do
    let g ← r.build places find
    match find f.name with
    | some j => return g (← f.reader.read j)
    | none => match f.absent, places with
      | .default a, _ => return g a
      | .defaultByName a, none => return g a
      | _, none => .error (.missing f.name)
      | _, some n =>
        .error (.wrongLength r.fields.length
          ("struct " ++ r.title ++ " with " ++ elements n))

def fieldOf? (r : Record T α) (key : String) : Option (FieldCheck T) :=
  r.fields.find? fun f => f.names.contains key

/-- The parts of an object under the names of fields. Fails at the first member that repeats a field
or does not fit it. -/
def collect (r : Record T α) :
    List (String × Json T) → List (String × Json T) → Except (Misfit T) (List (String × Json T))
  | found, [] => .ok found
  | found, (k, j) :: ms =>
    match r.fieldOf? k with
    | none => r.collect found ms
    | some f =>
      if (found.lookup f.name).isSome then .error (.repeated f.name)
      else (f.check j).bind fun _ => r.collect ((f.name, j) :: found) ms

/-- The items of a list under the names of the fields at their places. -/
def place : List (FieldCheck T) → List (Json T) → Except (Misfit T) (List (String × Json T))
  | f :: fs, j :: js => do
    f.check j
    return (f.name, j) :: (← place fs js)
  | _, _ => .ok []

def read (r : Record T α) : Json T → Except (Misfit T) α
  | .object ms => do
    let parts ← r.collect [] ms
    r.build none fun name => parts.lookup name
  | .list items => do
    let parts ← place r.fields items
    let a ← r.build (some r.fields.length) fun name => parts.lookup name
    if r.fields.length < items.length then
      .error (.wrongLength items.length "fewer elements in array")
    else .ok a
  | j => .error (.wrongType j.found ("struct " ++ r.title))

def reader (r : Record T α) : Reader T α where
  shape := .record (r.fields.map fun f => (f.names, f.shape))
  read := r.read

end Record

namespace Node
variable {T : Type} [TimeScale T]

mutual

/-- The value of a tree as far as `s` looks at it. Members of a record keep the order they are
written in, repeated ones included. -/
def project? : Shape → Node → Option (Json T)
  | .list s, .list items => (projectItems? s items).map .list
  | .record fields, .object ms => (projectMembers? fields ms).map .object
  | .record fields, .list items => (projectPlaces? (fields.map (·.2)) items).map .list
  | _, n => n.value?

def projectItems? : Shape → List Node → Option (List (Json T))
  | _, [] => some []
  | s, n :: ns => do return (← n.project? s) :: (← projectItems? s ns)

def projectPlaces? : List Shape → List Node → Option (List (Json T))
  | _, [] => some []
  | [], n :: ns => do return (← (n.value? : Option (Json T))) :: (← projectPlaces? [] ns)
  | s :: ss, n :: ns => do return (← n.project? s) :: (← projectPlaces? ss ns)

def projectMembers? :
    List (List String × Shape) → List (List Nat × Node) → Option (List (String × Json T))
  | _, [] => some []
  | fields, (k, n) :: ns => do
    let key ← Units.text? k
    match fields.find? fun f => f.1.contains key with
    | none => projectMembers? fields ns
    | some f => return (key, ← n.project? f.2) :: (← projectMembers? fields ns)

end

end Node

inductive Fault where
  | malformed
  | tooDeep
  | unrepresentable
  | misfit (message : String)
  deriving DecidableEq, Repr

def Fault.message : Fault → String
  | .malformed => "the text is not a JSON value"
  | .tooDeep => "recursion limit exceeded"
  | .unrepresentable => "a number is out of range or a string is not text"
  | .misfit message => message

variable {T α : Type} [TimeScale T]

def Json.ofText (s : String) : Except Fault (Json T) :=
  match Node.ofText? s with
  | none => .error .malformed
  | some n =>
    if Node.depthLimit < n.depth then .error .tooDeep
    else match (n.shallow? : Option (Json T)) with
      | none => .error .unrepresentable
      | some j => .ok j

def Reader.ofText [Spelled T] (r : Reader T α) (s : String) : Except Fault α :=
  match Node.ofText? s with
  | none => .error .malformed
  | some n =>
    match (n.project? r.shape : Option (Json T)) with
    | none => .error .unrepresentable
    | some j => match r.read j with
      | .ok a => .ok a
      | .error e => .error (.misfit e.message)

end Montage
