import Montage.Config.Basic
import Montage.Program

/-!
# The toolbox

The programs that the media work needs, found once: where the settings say, or else in the
directories that are searched for programs.
-/

namespace Montage

/-- The programs by name, and what each is needed for. -/
def knownPrograms : List (String × String) := [
  ("ffmpeg", "renders every edit step"),
  ("ffprobe", "reads media duration for slot planning")]

structure Toolbox where
  paths : List (String × Path)

/-- What there is to say about one program. -/
structure ProgramInfo where
  name : String
  purpose : String
  /-- The first line that it prints when it is asked for its version. -/
  version : Option String
  path : Option Path

namespace Toolbox

def origin : String := "cf_av::tools"

/-- The first of the searched directories that holds a program. -/
def search (name : String) (dirs : List Path) (fs : Files) : Option Path :=
  (dirs.map fun d => d.join name).find? fun p =>
    match fs.entry p with
    | .ok .program => true
    | _ => false

/-- The file that is started for a program. A path is taken as it is, a bare name is searched
for. -/
def resolve (dirs : List Path) (fs : Files) (program : Path) : Except IoError Path :=
  if program.text.toList.contains '/' then .ok program
  else if Files.nameLimit < program.text.utf8ByteSize then .error .tooLong
  else match search program.text dirs fs with
    | some p => .ok p
    | none =>
      .error (if dirs.any fun d => fs.holds (d.join program.text) then .permissionDenied
        else .notFound)

def configured (config : ToolPaths) (name : String) : Option Path :=
  if name = "ffmpeg" then config.ffmpeg else if name = "ffprobe" then config.ffprobe else none

/-- Where a program is. -/
def locate (config : ToolPaths) (dirs : List Path) (fs : Files) (name : String) : Option Path :=
  match configured config name with
  | some p => if fs.holds p then some p else search name dirs fs
  | none => search name dirs fs

/-- The programs under these settings. -/
def discover (config : ToolPaths) (dirs : List Path) (fs : Files) : Toolbox where
  paths := knownPrograms.filterMap fun (name, _) =>
    (locate config dirs fs name).map fun p => (name, p)

def logDiscover (config : ToolPaths) (fs : Files) : List Log.Line :=
  knownPrograms.filterMap fun (name, _) => do
    let p ← configured config name
    if fs.holds p then none
    else
      some ⟨.warn, origin,
        "Configured " ++ name ++ " path " ++ p.text ++ " does not exist; searching PATH"⟩

/-- The path of a program that is needed. -/
def require (t : Toolbox) (name : String) : Except Failure Path :=
  match t.paths.lookup name with
  | some p => .ok p
  | none => .error (.tool name (name ++ " not found; is it installed and in PATH?"))

def firstLine? (s : String) : Option String :=
  let cs := s.toList
  if cs.isEmpty then none
  else
    let line := cs.takeWhile (· ≠ '\n')
    let line := if line.length < cs.length && line.getLast? = some '\r' then line.dropLast else line
    some (String.ofList line)

def version? (h : Host) (fs : Files) (p : Path) : Option String :=
  match h.launch p ["-version"] none fs with
  | .finished ending output _ _ =>
    if ending.succeeded then firstLine? (Text.Utf8.decode output) else none
  | _ => none

/-- What there is to say about each known program. -/
def check (t : Toolbox) (h : Host) (fs : Files) : List ProgramInfo :=
  knownPrograms.map fun (name, purpose) =>
    let p := t.paths.lookup name
    ⟨name, purpose, p.bind (version? h fs), p⟩

end Toolbox

end Montage
