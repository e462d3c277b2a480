import Montage.Config.Rules
import Montage.Failure
import Montage.Log.Basic

/-!
# Settings

Settings are a JSON document with four sections, each of which may be left out: the programs, the
rules for insertions, how a plan is run, and where supplementary media come from. A missing or a bad
settings file never stops a run; the defaults are used instead.
-/

namespace Montage

/-- Programs at places of their own. The others are looked up. -/
structure ToolPaths where
  ffmpeg : Option Path
  ffprobe : Option Path

structure RunSettings where
  /-- Time limit of one call of a program, in seconds. -/
  toolTimeout : Nat
  /-- How many characters of a failing program's diagnostics are kept. -/
  diagnosticTail : Nat
  font : Option Path
  scratch : Option Path

def RunSettings.default : RunSettings := ⟨900, 3000, none, none⟩

structure Config (T : Type) where
  tools : ToolPaths
  rules : InsertRules T
  executor : RunSettings
  library : Option Path

namespace Config
variable {T : Type} [TimeScale T]

def default : Config T := ⟨⟨none, none⟩, .default, .default, none⟩

def path : Reader T Path := (Reader.text "path string").andThen fun s => .ok ⟨s⟩

def toolsRecord : Record T ToolPaths :=
  (Record.of "ToolsConfig" ToolPaths.mk)
    |>.field (.optional "ffmpeg_path" path)
    |>.field (.optional "ffprobe_path" path)

def executorRecord : Record T RunSettings :=
  let d := RunSettings.default
  (Record.of "ExecutorConfig" RunSettings.mk)
    |>.field (.defaulted "tool_timeout_secs" (.word 64 "u64") d.toolTimeout)
    |>.field (.defaulted "diagnostic_tail_chars" (.word 64 "usize") d.diagnosticTail)
    |>.field (.optional "font_path" path)
    |>.field (.optional "scratch_dir" path)

def contentRecord : Record T (Option Path) :=
  (Record.of "ContentConfig" id) |>.field (.optional "library_dir" path)

def record : Record T (Config T) :=
  let d : Config T := default
  (Record.of "Config" Config.mk)
    |>.field (.defaulted "tools" toolsRecord.reader d.tools)
    |>.field (.defaulted "rules" InsertRules.record.reader d.rules)
    |>.field (.defaulted "executor" executorRecord.reader d.executor)
    |>.field (.defaulted "content" contentRecord.reader d.library)

def ofText [Spelled T] (s : String) : Except Failure (Config T) :=
  match record.reader.ofText s with
  | .ok c => .ok c
  | .error e => .error (.validation ("config parse error: " ++ e.message))

def origin : String := "cf_core::config"

/-- The settings at a path, or the defaults where there are none, with what there is to log. -/
def load [Spelled T] (fs : Files) : Option Path → Config T × List Log.Line
  | none => (default, [])
  | some p =>
    let loaded : Except Failure (Config T) :=
      match fs.readText p with
      | .ok s => ofText s
      | .error e => .error (.io e)
    match loaded with
    | .ok c => (c, [])
    | .error (.io .notFound) =>
      (default,
        [⟨.info, origin, "Config " ++ p.text ++ " not found, running with defaults"⟩])
    | .error e => (default, [⟨.warn, origin, "Ignoring config " ++ p.text ++ ": " ++ e.message⟩])

/-- What the user should know about the settings. None of it is fatal. -/
def warnings (fs : Files) (c : Config T) : List (Warning T) :=
  let paths := [("tools.ffmpeg_path", c.tools.ffmpeg), ("tools.ffprobe_path", c.tools.ffprobe),
    ("executor.font_path", c.executor.font), ("content.library_dir", c.library)]
  c.rules.warnings ++
  (if c.executor.toolTimeout = 0 then [.noToolTime] else []) ++
  paths.filterMap fun (key, path?) =>
    match path? with
    | some p => if fs.holds p then none else some (.missingPath key p.text)
    | none => none

end Config

end Montage
