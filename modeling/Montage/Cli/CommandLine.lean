import Montage.Files.Path
import Montage.Time.Scale

/-!
# Command lines

How a command line is read. Options may stand before the command and behind it; a value stands
behind its option or is attached to it, and single letters may be joined. Whatever does not fit
makes the whole line unusable.
-/

namespace Montage
open TimeScale

inductive Action (T : Type) where
  | run (input plan output : Path) (library scratch : Option Path) (repaired : Bool)
  /-- Print the repaired form of a plan. -/
  | repair (plan : Path) (slots : Option Path)
  /-- Print slots for insertions. -/
  | slots (transcript : Option Path) (duration : Option T) (media proposals : Option Path)
      (maxInserts : Option Nat)
  | checkTools
  | validate
  | version

structure CommandLine (T : Type) where
  config : Option Path
  verbose : Bool
  action : Action T

namespace CommandLine

/-- Why there is nothing to do. -/
inductive Stop where
  | usage
  | help
  | version
  deriving DecidableEq, Repr

inductive Value where
  | path
  | number
  | count
  deriving DecidableEq, Repr

inductive Effect where
  | flag
  | value (v : Value)
  | help
  | version
  deriving DecidableEq, Repr

structure OptionRule where
  name : String
  letter : Option Char
  effect : Effect

/-- The options and positional arguments that may stand in some part of a command line. -/
structure Grammar where
  options : List OptionRule
  positions : List String
  commands : List String

/-- What has been read: values and flags by the names of their options and positions. -/
structure Matches where
  values : List (String × String)
  flags : List String

def Matches.none : Matches := ⟨[], []⟩

/-- A natural number of 64 bits, with a plus sign at most. -/
def count? (s : String) : Option Nat := (Decimal.natural? s.toList).filter (· ≤ wordMax)

def Value.accepts : Value → String → Bool
  | .path, s => s ≠ ""
  | .number, s => (Numeral.read? s).isSome
  | .count, s => (count? s).isSome

namespace Matches

/-- With a value under a name. No name has two. -/
def value (m : Matches) (name : String) (v : Value) (s : String) : Except Stop Matches :=
  if (m.values.lookup name).isSome || !v.accepts s then .error .usage
  else .ok { m with values := (name, s) :: m.values }

/-- With a flag. No flag is given twice. -/
def flag (m : Matches) (name : String) : Except Stop Matches :=
  if m.flags.contains name then .error .usage else .ok { m with flags := name :: m.flags }

end Matches

/-- A step of the reading: an option that still waits for its value, and what has been read. -/
abbrev Step := Option OptionRule × Matches

/-- An option by its whole name, with an attached value if there is one. -/
def readLong (g : Grammar) (m : Matches) (s : List Char) : Except Stop Step :=
  let name := String.ofList (s.takeWhile (· ≠ '='))
  let attached := match s.dropWhile (· ≠ '=') with
    | _ :: v => some (String.ofList v)
    | [] => none
  match g.options.find? (fun o => o.name == name), attached with
  | none, _ => .error .usage
  | some o, some v => match o.effect with
    | .value kind => (m.value o.name kind v).map fun m => (none, m)
    | _ => .error .usage
  | some o, none => match o.effect with
    | .value _ => .ok (some o, m)
    | .flag => (m.flag o.name).map fun m => (none, m)
    | .help => .error .help
    | .version => .error .version

/-- Options by their letters. The first that takes a value takes what is left. -/
def readLetters (g : Grammar) (m : Matches) : List Char → Except Stop Step
  | [] => .ok (none, m)
  | c :: cs =>
    match g.options.find? (fun o => o.letter == some c) with
    | none => .error .usage
    | some o => match o.effect with
      | .value kind => match cs with
        | [] => .ok (some o, m)
        | '=' :: v => (m.value o.name kind (String.ofList v)).map fun m => (none, m)
        | v => (m.value o.name kind (String.ofList v)).map fun m => (none, m)
      | .flag => (m.flag o.name).bind fun m => readLetters g m cs
      | .help => .error .help
      | .version => .error .version

/-- A positional argument under the first name that is free. -/
def readPosition (g : Grammar) (m : Matches) (s : String) : Except Stop Matches :=
  match g.positions.find? fun name => (m.values.lookup name).isNone with
  | some name => m.value name .path s
  | none => .error .usage

/-- Read arguments up to a command, which is given back with what follows it. An argument that looks
like an option is never a value. -/
def readArguments (g : Grammar) : Step → List String →
    Except Stop (Matches × Option (String × List String))
  | (none, m), [] => .ok (m, none)
  | (some _, _), [] => .error .usage
  | (some o, m), a :: as =>
    match a.toList, o.effect with
    | '-' :: _ :: _, _ => .error .usage
    | _, .value kind => (m.value o.name kind a).bind fun m => readArguments g (none, m) as
    | _, _ => .error .usage
  | (none, m), a :: as =>
    if g.commands.contains a then .ok (m, some (a, as))
    else match a.toList with
      | ['-', '-'] => (as.foldlM (readPosition g) m).map fun m => (m, none)
      | '-' :: '-' :: s => (readLong g m s).bind fun step => readArguments g step as
      | '-' :: c :: s => (readLetters g m (c :: s)).bind fun step => readArguments g step as
      | _ => (readPosition g m a).bind fun m => readArguments g (none, m) as

/-! ## The grammar of the program -/

def configOption : OptionRule := ⟨"config", some 'c', .value .path⟩

def verboseOption : OptionRule := ⟨"verbose", some 'v', .flag⟩

def helpOption : OptionRule := ⟨"help", some 'h', .help⟩

def commandNames : List String :=
  ["run", "repair", "slots", "check-tools", "validate", "version"]

def front : Grammar where
  options := [configOption, verboseOption, helpOption, ⟨"version", some 'V', .version⟩]
  positions := []
  commands := "help" :: commandNames

/-- The options of a command besides the common ones. -/
def optionsOf (command : String) : List OptionRule :=
  match command with
  | "run" => [⟨"plan", some 'p', .value .path⟩, ⟨"output", some 'o', .value .path⟩,
      ⟨"library", none, .value .path⟩, ⟨"scratch", none, .value .path⟩, ⟨"no-repair", none, .flag⟩]
  | "repair" => [⟨"plan", some 'p', .value .path⟩, ⟨"slots", none, .value .path⟩]
  | "slots" => [⟨"transcript", some 't', .value .path⟩, ⟨"duration", some 'd', .value .number⟩,
      ⟨"media", none, .value .path⟩, ⟨"proposals", none, .value .path⟩,
      ⟨"max-inserts", none, .value .count⟩]
  | _ => []

/-- What may stand behind a command. The settings to be checked are named by position alone. -/
def behind (command : String) : Grammar where
  options := optionsOf command ++
    (if command = "validate" then [] else [configOption]) ++ [verboseOption, helpOption]
  positions := match command with
    | "run" => ["input"]
    | "validate" => ["config"]
    | _ => []
  commands := []

variable {T : Type} [TimeScale T]

def path? (m : Matches) (name : String) : Option Path := (m.values.lookup name).map Path.mk

def needed (m : Matches) (name : String) : Except Stop Path :=
  match path? m name with
  | some p => .ok p
  | none => .error .usage

/-- The action of a command with what has been read behind it. -/
def actionOf (command : String) (m : Matches) : Except Stop (Action T) :=
  match command with
  | "run" => do
    return .run (← needed m "input") (← needed m "plan") (← needed m "output") (path? m "library")
      (path? m "scratch") (!m.flags.contains "no-repair")
  | "repair" => do return .repair (← needed m "plan") (path? m "slots")
  | "slots" =>
    let transcript := path? m "transcript"
    let duration := (m.values.lookup "duration").bind Numeral.read? |>.bind ofNumeral?
    let media := path? m "media"
    if media.isNone && (transcript.isNone || duration.isNone) then .error .usage
    else
      .ok (.slots transcript duration media (path? m "proposals")
        ((m.values.lookup "max-inserts").bind count?))
  | "check-tools" => .ok .checkTools
  | "validate" => .ok .validate
  | "version" => .ok .version
  | _ => .error .usage

/-- Read a command line. An option behind the command counts more than the same one before it. -/
def read (arguments : List String) : Except Stop (CommandLine T) := do
  match ← readArguments front (none, .none) arguments with
  | (_, none) => .error .usage
  | (m, some (command, rest)) =>
    if command = "help" then
      match rest with
      | [] => .error .help
      | [about] => .error (if front.commands.contains about then .help else .usage)
      | _ => .error .usage
    else
      let (n, _) ← readArguments (behind command) (none, .none) rest
      let action ← actionOf command n
      return ⟨(path? n "config").or (path? m "config"),
        m.flags.contains "verbose" || n.flags.contains "verbose", action⟩

end CommandLine

end Montage
