import Montage.Text.Blank

/-!
# Paths

A path is kept as it is written and compared by its components: repeated slashes and dots between
slashes do not count, a dot in front does. Nothing here looks at the files, so that two dots are a
component like another.
-/

namespace Montage

structure Path where
  text : String
  deriving DecidableEq, Repr

namespace Path

def isAbsolute (p : Path) : Bool := p.text.toList.head? == some '/'

def segments (p : Path) : List String := Text.splitAt '/' p.text

/-- A segment that is no component, except a dot in front. -/
def isNoise (s : String) : Bool := s == "" || s == "."

/-- The part in front of the names: a slash for an absolute path, a dot, or nothing; and the
segments behind it. -/
def lead (p : Path) : String × List String :=
  match p.segments with
  | [] => ("", [])
  | s :: rest =>
    if p.isAbsolute then ("/", rest) else if s = "." then (".", rest) else ("", s :: rest)

/-- The root or a leading dot, if there is one, and the names. -/
def components (p : Path) : List String :=
  let (front, rest) := p.lead
  let names := rest.filter fun s => !isNoise s
  if front = "" then names else front :: names

/-- Written with a slash at its end, behind something else. -/
def endsInSlash (p : Path) : Bool :=
  match p.text.toList.reverse with
  | '/' :: _ :: _ => true
  | _ => false

/-- The path as it is without the slashes at its end. The root keeps its own. -/
def withoutSlash (p : Path) : Path :=
  match (p.text.toList.reverse.dropWhile (· = '/')).reverse with
  | [] => if p.isAbsolute then ⟨"/"⟩ else p
  | cs => ⟨String.ofList cs⟩

/-- The segments in front of the last that is not empty, and an empty one for the slash behind them.
-/
def way (p : Path) : List String := p.withoutSlash.segments.dropLast ++ [""]

/-- A dot is the last segment that is not empty. -/
def endsInDot (p : Path) : Bool := p.withoutSlash.segments.getLast? == some "."

/-- Paths that are written alike up to noise. -/
def same (p q : Path) : Bool := p.components == q.components

/-- Inside the directory `dir`, or that directory. -/
def isUnder (p dir : Path) : Bool := dir.components.isPrefixOf p.components

/-- `name` below `p`. An absolute name stands alone. -/
def join (p : Path) (name : String) : Path :=
  if (Path.mk name).isAbsolute || p.text = "" then ⟨name⟩
  else if p.text.toList.getLast? = some '/' then ⟨p.text ++ name⟩
  else ⟨p.text ++ "/" ++ name⟩

def fileName? (p : Path) : Option String :=
  match p.components.getLast? with
  | none => none
  | some s => if s = "/" || s = "." || s = ".." then none else some s

def parent? (p : Path) : Option Path :=
  let (front, rest) := p.lead
  match rest.reverse.dropWhile isNoise with
  | [] => if front = "." then some ⟨""⟩ else none
  | _ :: below =>
    let kept := "/".intercalate (below.dropWhile isNoise).reverse
    some ⟨if front = "/" then "/" ++ kept
      else if front = "." then (if kept = "" then "." else "./" ++ kept)
      else kept⟩

/-- The path with another name in the place of its own. Where it has none, the name comes below it.
-/
def withFileName (p : Path) (name : String) : Path :=
  match p.fileName?, p.parent? with
  | some _, some dir => dir.join name
  | _, _ => p.join name

/-- A file name cut at its last point, unless that is its first character: the stem and what follows
the point. -/
def splitName (name : String) : String × Option String :=
  let cs := name.toList.reverse
  let behind := cs.takeWhile (· ≠ '.')
  match cs.dropWhile (· ≠ '.') with
  | [] => (name, none)
  | [_] => (name, none)
  | _ :: stem => (String.ofList stem.reverse, some (String.ofList behind.reverse))

def stem? (p : Path) : Option String := p.fileName?.map fun n => (splitName n).1

def extension? (p : Path) : Option String := p.fileName?.bind fun n => (splitName n).2

/-- Order of kinds of components: the root, a dot, two dots, names. -/
def componentRank (s : String) : Nat :=
  if s = "/" then 0 else if s = "." then 1 else if s = ".." then 2 else 3

/-- Lexicographic order of component lists. -/
def componentsLE : List String → List String → Bool
  | [], _ => true
  | _ :: _, [] => false
  | a :: as, b :: bs =>
    if a = b then componentsLE as bs
    else if componentRank a = componentRank b then a < b
    else componentRank a < componentRank b

def le (p q : Path) : Bool := componentsLE p.components q.components

end Path

end Montage
