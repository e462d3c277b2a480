import Montage.Text.Alphanumeric
import Montage.Text.Hex

/-!
# Patterns

The values of fields are described by regular expressions. As the program compares no value with
one, all there is to know of a pattern is whether it is one. A pattern stands between braces of its
own and so holds no closing brace: what an opening brace would begin is never finished.

A reader takes what it reads from the front of the text and leaves the rest.
-/

namespace Montage.Log.Pattern

/-- Why a text is no pattern. -/
inductive Fault where
  | malformed
  /-- The ends of words are places that the machines made of patterns cannot find. -/
  | wordBoundary
  deriving DecidableEq, Repr

def Fault.message : Fault → String
  | .malformed => "error building NFA"
  | .wordBoundary =>
    "unsupported regex feature for DFAs: cannot build DFAs for regexes with Unicode word " ++
      "boundaries; switch to ASCII word boundaries, or heuristically enable Unicode word " ++
      "boundaries or use a different regex engine"

/-- What a backslash stands for, together with what is behind it. -/
inductive Escape where
  | character (n : Nat)
  | characters
  | place (isWordBoundary : Bool)
  deriving DecidableEq, Repr

/-- A character given by `n` hexadecimal digits. -/
def readCode (n : Nat) (s : List Char) : Option (Escape × List Char) := do
  let code ← Text.hexValue? (s.take n)
  if (s.take n).length = n && Nat.isValidChar code then
    return (.character code, s.drop n)
  else none

/-- One-letter names of the general categories of characters. -/
def categories : List Char := ['c', 'l', 'm', 'n', 'p', 's', 'z']

/-- The controls that have a letter. -/
def controls : List (Char × Nat) := [
  ('a', 0x7), ('f', 0xc), ('t', 0x9), ('n', 0xa), ('r', 0xd), ('v', 0xb)]

/-- Behind a backslash. -/
def readEscape : List Char → Option (Escape × List Char)
  | [] => none
  | c :: s =>
    if c = 'x' then readCode 2 s
    else if c = 'u' then readCode 4 s
    else if c = 'U' then readCode 8 s
    else if c = 'p' || c = 'P' then
      match s with
      | d :: s => if categories.contains d.toLower then some (.characters, s) else none
      | [] => none
    else if ['d', 'D', 's', 'S', 'w', 'W'].contains c then some (.characters, s)
    else if ['A', 'z'].contains c then some (.place false, s)
    else if ['b', 'B', '<', '>'].contains c then some (.place true, s)
    else match controls.lookup c with
      | some n => some (.character n, s)
      | none => if c.toNat < 0x80 && !c.isAlphanum then some (.character c.toNat, s) else none

/-! ## Classes of characters -/

/-- The code point of one character of a class, or nothing for a class of its own. -/
def readMember : List Char → Option (Option Nat × List Char)
  | [] => none
  | '\\' :: s =>
    match readEscape s with
    | some (.character n, s) => some (some n, s)
    | some (.characters, s) => some (none, s)
    | _ => none
  | c :: s => some (some c.toNat, s)

def classNames : List String := [
  "alnum", "alpha", "ascii", "blank", "cntrl", "digit", "graph", "lower", "print", "punct", "space",
  "upper", "word", "xdigit"]

/-- Behind the bracket of a class that is given by its name between colons. -/
def readNamed : List Char → Option (List Char)
  | ':' :: s =>
    let s := match s with
      | '^' :: t => t
      | t => t
    match s.dropWhile (· ≠ ':') with
    | ':' :: ']' :: rest =>
      if classNames.contains (String.ofList (s.takeWhile (· ≠ ':'))) then some rest else none
    | _ => none
  | _ => none

/-- Without the signs behind an opening bracket that stand for what they are elsewhere: a closing
bracket, or hyphens. -/
def openClass (s : List Char) : List Char :=
  let s := match s with
    | '^' :: t => t
    | t => t
  match s with
  | ']' :: t => t
  | t => t.dropWhile (· = '-')

/-- The rest of a class, where `depth` brackets are open. Each round takes a character at least. -/
def readClass : Nat → Nat → List Char → Option (List Char)
  | 0, _, _ => none
  | rounds + 1, depth, s =>
    match s with
    | [] => none
    | '[' :: s =>
      match readNamed s with
      | some s => readClass rounds depth s
      | none => readClass rounds (depth + 1) (openClass s)
    | ']' :: s => if depth ≤ 1 then some s else readClass rounds (depth - 1) s
    | '&' :: '&' :: s => readClass rounds depth s
    | '-' :: '-' :: s => readClass rounds depth s
    | '~' :: '~' :: s => readClass rounds depth s
    | s =>
      match readMember s with
      | none => none
      | some (_, '-' :: ']' :: s) => readClass rounds depth ('-' :: ']' :: s)
      | some (_, '-' :: '-' :: s) => readClass rounds depth ('-' :: '-' :: s)
      | some (first, '-' :: s) =>
        match first, readMember s with
        | some a, some (some b, s) => if a ≤ b then readClass rounds depth s else none
        | _, _ => none
      | some (_, s) => readClass rounds depth s

/-! ## Groups -/

/-- The rest of the flags of a group, when `seen` are read, the last in front. True if they open the
group, false if they stand alone. -/
def readFlags (seen : List Char) : List Char → Option (Bool × List Char)
  | [] => none
  | c :: s =>
    let dangling := seen.head? = some '-'
    if c = ':' then if dangling then none else some (true, s)
    else if c = ')' then if seen.isEmpty || dangling then none else some (false, s)
    else if ['-', 'i', 'm', 's', 'U', 'u', 'R', 'x'].contains c && !seen.contains c then
      readFlags (c :: seen) s
    else none

def readName (s : List Char) : Option (Bool × List Char) :=
  match s.takeWhile (· ≠ '>'), s.dropWhile (· ≠ '>') with
  | c :: name, _ :: rest =>
    let canFollow (c : Char) : Bool := ['_', '.', '[', ']'].contains c || Text.isAlphanumeric c
    if (c = '_' || Text.isAlphanumeric c && !c.isDigit) && name.all canFollow then some (true, rest)
    else none
  | _, _ => none

/-- Behind an opening parenthesis: whether a group is open after it. -/
def readGroup : List Char → Option (Bool × List Char)
  | '?' :: 'P' :: '<' :: s => readName s
  | '?' :: '<' :: s => readName s
  | '?' :: s => readFlags [] s
  | s => some (true, s)

/-! ## Patterns -/

/-- The rest of a pattern, where `depth` groups are open: whether the pattern has word boundaries.
`repeatable`: an operator may follow that repeats what is before it. `boundary`: there has been a
word boundary. Each round takes a character at least. -/
def readItems : Nat → Nat → Bool → Bool → List Char → Option Bool
  | 0, _, _, _, _ => none
  | _ + 1, depth, _, boundary, [] => if depth = 0 then some boundary else none
  | rounds + 1, depth, repeatable, boundary, c :: s =>
    if c = '\\' then
      match readEscape s with
      | none => none
      | some (e, s) => readItems rounds depth true (boundary || e = .place true) s
    else if c = '[' then
      match readClass (s.length + 1) 1 (openClass s) with
      | none => none
      | some s => readItems rounds depth true boundary s
    else if c = '(' then
      match readGroup s with
      | none => none
      | some (opens, s) => readItems rounds (if opens then depth + 1 else depth) false boundary s
    else if c = ')' then
      if depth = 0 then none else readItems rounds (depth - 1) true boundary s
    else if c = '|' then readItems rounds depth false boundary s
    else if c = '\x7b' then none
    else if ['*', '+', '?'].contains c && !repeatable then none
    else readItems rounds depth true boundary s

/-- Why a text is no pattern, if it is none. -/
def fault? (s : List Char) : Option Fault :=
  match readItems (s.length + 1) 0 false false s with
  | none => some .malformed
  | some true => some .wordBoundary
  | some false => none

end Montage.Log.Pattern
