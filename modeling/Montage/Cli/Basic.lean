import Montage.Cli.CommandLine
import Montage.Cli.Trouble
import Montage.Content.Library
import Montage.Log.Filter
import Montage.Media.Runner
import Montage.Plan.Document
import Montage.Plan.Issue
import Montage.Plan.Repair
import Montage.Run.Basic
import Montage.Slot.Ranking

/-!
# Commands

What each command of the program does with the files it is given: what it prints, what it logs, how
it ends, and which files it leaves.
-/

namespace Montage
open TimeScale

/-- What the program finds around it. -/
structure Surroundings where
  host : Host
  files : Files
  /-- The directories that are searched for programs. -/
  programs : List Path
  /-- The directory for temporary files, and the name of one of our own in it. -/
  temporary : Path × String
  /-- The random digits of transient files. -/
  uid : Nat → String
  /-- How long everything takes, in seconds. -/
  elapsed : String

structure Reply where
  answer : Except Trouble Unit
  printed : String
  log : List Log.Line
  files : Files

namespace Cli
variable {T : Type} [TimeScale T] [Spelled T]

def programName : String := "cutforge"

def versionLine : String := programName ++ " 0.1.0\n"

def origin : String := "cutforge"

def lines (ss : List String) : String := String.join (ss.map (· ++ "\n"))

/-! ## Reading what the command works on -/

/-- A plan in a file, made canonical and, if that is wanted, repaired. -/
def loadPlan (c : Config T) (fs : Files) (p : Path) (repaired : Bool) :
    Except Trouble (Plan T) × List Log.Line :=
  match fs.readText p with
  | .error e =>
    (.error ((Trouble.ofMessage e.message).within ("failed to read plan " ++ p.text)), [])
  | .ok s => match (Plan.ofText s : Except Failure (Plan.Reading T)) with
    | .error e => (.error (.ofFailure e), [])
    | .ok r =>
      let dropped := if r.dropped.isEmpty then [] else
        [⟨.warn, origin, "Dropped " ++ toString r.dropped.length ++ " malformed plan record(s)"⟩]
      if repaired then
        (.ok (r.tasks.repair c.rules).plan, r.log ++ dropped ++ r.tasks.logRepair c.rules)
      else (.ok r.tasks, r.log ++ dropped)

def logIssues (ts : Plan T) : List Log.Line :=
  ts.issues.map fun i => ⟨.warn, origin, "Plan issue: " ++ i.message⟩

def loadSlots (fs : Files) (p : Path) : Except Trouble (List (Slot T)) :=
  match fs.readText p with
  | .error e => .error ((Trouble.ofMessage e.message).within ("failed to read slots " ++ p.text))
  | .ok s => match Slot.listReader.ofText s with
    | .error e => .error ((Trouble.ofMessage e.message).within "invalid slots JSON")
    | .ok slots => .ok slots

/-- The transcript of a file, or the one beside the media. -/
def loadTranscript (fs : Files) (transcript media : Option Path) :
    Except Trouble (Transcript T) × List Log.Line :=
  match transcript, media with
  | some p, _ => match Transcript.load fs p with
    | .ok t => (.ok t, [])
    | .error e =>
      (.error ((Trouble.ofFailure e).within ("failed to read transcript " ++ p.text)), [])
  | none, some m => match Transcript.beside fs m with
    | .ok t => (.ok t, Transcript.logBeside m)
    | .error e =>
      (.error ((Trouble.ofFailure e).within ("no transcript for " ++ m.text)),
        Transcript.logBeside m)
  | none, none => (.error (.ofMessage "either --transcript or --media is required"), [])

/-- The length that was given, or else that of the media. -/
def findDuration (su : Surroundings) (c : Config T) (duration : Option T) (media : Option Path) :
    Except Trouble T × List Log.Line :=
  match duration, media with
  | some d, _ => (.ok d, [])
  | none, none => (.error (.ofMessage "either --duration or --media is required"), [])
  | none, some m =>
    let found := Toolbox.logDiscover c.tools su.files
    match (Toolbox.discover c.tools su.programs su.files).require "ffprobe" with
    | .error e => (.error (.ofFailure e), found)
    | .ok prober =>
      let (summary, log) := MediaSummary.probe su.host prober m su.files
      let answer := match (summary : Except Failure (MediaSummary T)) with
        | .error e => .error (.ofFailure e)
        | .ok s => match s.duration with
          | some d => .ok d
          | none => .error (.ofMessage ("could not determine duration of " ++ m.text))
      (answer, found ++ log)

/-! ## The commands -/

/-- The source of supplementary media under the settings. -/
def contentSource (su : Surroundings) (c : Config T) (tools : Toolbox) : ContentSource T :=
  match c.library with
  | some root => Library.source ⟨root, (tools.require "ffprobe").toOption⟩ su.host
  | none => .nothing

def openScratch (su : Surroundings) (c : Config T) : Except Failure (Scratch × Files) :=
  match c.executor.scratch with
  | some dir => Scratch.inDirectory su.uid dir su.files
  | none => Scratch.temporary su.uid su.temporary.1 su.temporary.2 su.files

/-- What is printed of a run. -/
def describe (r : Report) : String :=
  lines <| ["Output: " ++ r.output.text, "Steps: " ++ toString r.steps] ++
    (if r.produced.isEmpty then [] else ["Produced: " ++ ", ".intercalate r.produced]) ++
    r.skipped.map fun s =>
      "Skipped #" ++ toString s.position ++ " " ++ s.step ++ ": " ++ s.reason

def runWith (su : Surroundings) (c : Config T) (tools : Toolbox) (runner : Runner)
    (input output : Path) (ts : Plan T) : Reply :=
  match openScratch su c with
  | .error e => ⟨.error (.ofFailure e), "", [], su.files⟩
  | .ok (scratch, files) =>
    let setup : Setup T :=
      ⟨runner.tool su.host, contentSource su c tools, c.executor.font.getD Filter.defaultFont⟩
    let finished := setup.run ts input output scratch files
    let log := finished.state.trace.flatMap (Event.log su.elapsed)
    let files := scratch.leave finished.state.files
    match finished.answer with
    | .ok report => ⟨.ok (), describe report, log, files⟩
    | .error e => ⟨.error (.ofFailure e), "", log, files⟩

def runPlan (su : Surroundings) (c : Config T) (input plan output : Path) (repaired : Bool) :
    Reply :=
  if !su.files.holds input then
    ⟨.error (.ofMessage ("Input file does not exist: " ++ input.text)), "", [], su.files⟩
  else match loadPlan c su.files plan repaired with
    | (.error e, log) => ⟨.error e, "", log, su.files⟩
    | (.ok ts, log) =>
      let log := log ++ logIssues ts ++ Toolbox.logDiscover c.tools su.files
      let tools := Toolbox.discover c.tools su.programs su.files
      match Runner.ofToolbox tools c.executor with
      | .error e => ⟨.error (.ofFailure e), "", log, su.files⟩
      | .ok runner =>
        let reply := runWith su c tools runner input output ts
        { reply with log := log ++ reply.log }

def repairPlan (su : Surroundings) (c : Config T) (plan : Path) (slots : Option Path) : Reply :=
  match loadPlan c su.files plan false with
  | (.error e, log) => ⟨.error e, "", log, su.files⟩
  | (.ok ts, log) =>
    let wanted : Except Trouble (List (Slot T)) := match slots with
      | some p => loadSlots su.files p
      | none => .ok []
    match wanted with
    | .error e => ⟨.error e, "", log, su.files⟩
    | .ok slots =>
      let repaired := (ts.repairWithSlots c.rules slots).plan
      ⟨.ok (), repaired.json.pretty ++ "\n",
        log ++ ts.logRepairWithSlots c.rules slots ++ logIssues repaired, su.files⟩

/-- Proposals in a file, with what reading them logs. -/
def loadProposals (fs : Files) (p : Path) :
    Except Trouble (List (Proposal T) × List Log.Line) :=
  let read : Except Failure (Json T) := match fs.readText p with
    | .ok s => Proposal.document s
    | .error e => .error (.io e)
  match read with
  | .ok doc => .ok (Proposal.listOf doc, Proposal.logListOf doc)
  | .error e => .error ((Trouble.ofFailure e).within ("failed to read proposals " ++ p.text))

def printSlots (su : Surroundings) (duration : T) (slots : List (Slot T)) (log : List Log.Line) :
    Reply :=
  ⟨.ok (), (Json.list (slots.map Slot.json)).pretty ++ "\n",
    log ++ [⟨.info, origin, "Planned " ++ toString slots.length ++ " slot(s) over " ++
      Spelled.fixed 1 duration ++ "s"⟩], su.files⟩

def planSlots (su : Surroundings) (c : Config T) (transcript : Option Path) (duration : Option T)
    (media proposals : Option Path) : Reply :=
  match loadTranscript su.files transcript media with
  | (.error e, log) => ⟨.error e, "", log, su.files⟩
  | (.ok t, log) => match findDuration su c duration media with
    | (.error e, more) => ⟨.error e, "", log ++ more, su.files⟩
    | (.ok d, more) =>
      let log := log ++ more
      match proposals with
      | none => printSlots su d (c.rules.slots t d) (log ++ c.rules.logSlots t d)
      | some p => match (loadProposals su.files p : Except Trouble (List (Proposal T) × _)) with
        | .error e => ⟨.error e, "", log, su.files⟩
        | .ok (ps, read) =>
          printSlots su d (c.rules.rankedSlots (.ok ps) t d)
            (log ++ read ++ c.rules.logRankedSlots (.ok ps) t d)

def describeProgram (p : ProgramInfo) : List String :=
  [(if p.path.isSome then "✓" else "✗") ++ " " ++ p.name ++ " (" ++ p.purpose ++ ")" ++
    (match p.path with
      | some path => " - " ++ path.text
      | none => "")] ++
  p.version.toList.map ("    " ++ ·)

def checkTools (su : Surroundings) (c : Config T) : Reply :=
  let programs := (Toolbox.discover c.tools su.programs su.files).check su.host su.files
  let verdict := if programs.all fun p => p.path.isSome then "All required tools are available!"
    else "Some tools are missing. Install them to enable all features."
  ⟨.ok (), lines (["Checking external tools...", ""] ++ programs.flatMap describeProgram ++
    ["", verdict]), Toolbox.logDiscover c.tools su.files, su.files⟩

def describeConfig (fs : Files) (c : Config T) : List String :=
  let r := c.rules
  let tenths (t : T) : String := Spelled.fixed 1 t
  ["  Inserts: up to " ++ toString r.maxInserts ++ ", " ++ tenths r.minDuration ++ "-" ++
      tenths r.maxDuration ++ "s each, " ++ tenths r.minGap ++ "s apart",
    "  Margins: first " ++ tenths r.avoidFirst ++ "s, last " ++ tenths r.avoidLast ++ "s",
    "  Tool timeout: " ++ toString c.executor.toolTimeout ++ "s"] ++
  c.library.toList.map (fun p => "  Content library: " ++ p.text) ++
  (c.warnings fs).map fun w => "  ⚠ " ++ w.message

def validateConfig (T : Type) [TimeScale T] [Spelled T] (su : Surroundings) (path : Option Path) :
    Reply :=
  match path with
  | none =>
    ⟨.ok (), lines ("No config file specified, using defaults" ::
      describeConfig su.files (.default : Config T)), [], su.files⟩
  | some p =>
    let opening := "Validating config: " ++ p.text
    let fail (t : Trouble) : Reply := ⟨.error t, lines [opening], [], su.files⟩
    match su.files.readText p with
    | .error e => fail ((Trouble.ofMessage e.message).within ("failed to read config " ++ p.text))
    | .ok s => match (Config.ofText s : Except Failure (Config T)) with
      | .error e => fail (.ofFailure e)
      | .ok c =>
        ⟨.ok (), lines (opening :: "✓ Configuration is valid" :: describeConfig su.files c), [],
          su.files⟩

/-- Run a command with the settings at hand. -/
def perform (su : Surroundings) (c : Config T) (config : Option Path) : Action T → Reply
  | .run input plan output library scratch repaired =>
    let c := { c with
      library := library.or c.library
      executor := { c.executor with scratch := scratch.or c.executor.scratch } }
    runPlan su c input plan output repaired
  | .repair plan slots => repairPlan su c plan slots
  | .slots transcript duration media proposals maxInserts =>
    let c := { c with
      rules := { c.rules with maxInserts := maxInserts.getD c.rules.maxInserts } }
    planSlots su c transcript duration media proposals
  | .checkTools => checkTools su c
  | .validate => validateConfig T su config
  | .version => ⟨.ok (), versionLine, [], su.files⟩

/-- The settings are read by every command but those that print or check something of their own. -/
def readsConfig : Action T → Bool
  | .validate => false
  | .version => false
  | _ => true

def execute (su : Surroundings) (c : CommandLine T) : Reply :=
  let (config, log) :=
    if readsConfig c.action then Config.load su.files c.config else (.default, [])
  let reply := perform su config c.config c.action
  { reply with log := log ++ reply.log }

/-! ## The whole program -/

/-- What the program leaves behind when it ends. -/
structure Finish where
  status : Nat
  printed : String
  /-- What is printed apart from the result, the log not counted. -/
  errors : String
  log : List Log.Line
  files : Files

/-- What is logged unless something else is asked for. -/
def defaultFilter (verbose : Bool) : String :=
  if verbose then
    "cutforge=trace,cf_core=debug,cf_av=debug,cf_plan=debug,cf_pipeline=debug"
  else "cutforge=info,cf_core=info,cf_av=info,cf_plan=info,cf_pipeline=info"

def usage : String :=
  "Usage: " ++ programName ++ " [OPTIONS] <" ++ "|".intercalate CommandLine.commandNames ++ ">\n"

/-- Run the program on its arguments. Plan, slots and reports go out by themselves; the log is kept
apart from them, fit for a terminal. -/
def main (T : Type) [TimeScale T] [Spelled T] (su : Surroundings) (filter : Option String)
    (arguments : List String) : Finish :=
  match (CommandLine.read arguments : Except CommandLine.Stop (CommandLine T)) with
  | .error .usage => ⟨2, "", usage, [], su.files⟩
  | .error .help => ⟨0, usage, "", [], su.files⟩
  | .error .version => ⟨0, versionLine, "", [], su.files⟩
  | .ok c =>
    let reply := execute su c
    let directives := filter.getD (defaultFilter c.verbose)
    let shown := Log.Filter.ofText directives
    let (status, errors) := match reply.answer with
      | .ok () => (0, "")
      | .error t => (1, t.text)
    ⟨status, reply.printed, lines (Log.Filter.complaints directives) ++ errors,
      (reply.log.filter shown.shows).map Log.Line.disarm, reply.files⟩

end Cli

end Montage
