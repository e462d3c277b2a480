import Montage.Content.Source
import Montage.Media.Summary

/-!
# Media libraries

A library is a directory of media files. A file answers a query if its name shares words with it;
the more words it shares, the better. With a prober at hand, files of the wrong orientation or
length are passed over. The file that is chosen is copied into the scratch directory.
-/

namespace Montage
open TimeScale

structure Library where
  root : Path
  /-- The program that describes media files, if they are to be checked. -/
  prober : Option Path

namespace Library

/-- The words of a query that a file name has. A word that the query has twice counts twice. -/
def score (wanted : List String) (p : Path) : Nat :=
  let found := Query.words (p.stem?.getD "")
  wanted.countP found.contains

def hasExtension (allowed : List String) (p : Path) : Bool :=
  p.extension?.any fun e => allowed.contains (Text.lowercaseAscii e)

/-- The better of two files comes first; of two equally good ones, the lesser path. -/
def precedes (a b : Nat × Path) : Bool := b.1 < a.1 || (a.1 = b.1 && a.2.le b.2)

/-- Of some files, those that answer a query, best first. -/
def rank (query : String) (kind : MediaKind) (files : List Path) : List Path :=
  let wanted := Query.words query
  let scored := files.filterMap fun p =>
    if hasExtension kind.extensions p && 0 < score wanted p then some (score wanted p, p) else none
  (scored.mergeSort precedes).map (·.2)

/-- The files of the library for a query, best first. -/
def candidates (l : Library) (query : String) (kind : MediaKind) (fs : Files) : List Path :=
  rank query kind (fs.under l.root)

variable {T : Type} [TimeScale T] [Spelled T]

def note (level : Log.Level) (message : String) : Log.Line :=
  ⟨level, ContentSource.origin, message⟩

/-- A file fits a request, and what there is to log about it. -/
def fits (h : Host) (prober : Path) (request : Request T) (fs : Files) (p : Path) :
    Bool × List Log.Line :=
  match (MediaSummary.probe h prober p fs : Except Failure (MediaSummary T) × List Log.Line) with
  | (.error e, log) =>
    (false,
      log ++ [note .warn ("Skipping unreadable library file " ++ p.text ++ ": " ++ e.message)])
  | (.ok m, log) =>
    if request.orientation ≠ "" && m.orientation ≠ request.orientation then
      (false, log ++ [note .debug
        ("Skipping " ++ p.text ++ ": " ++ m.orientation ++ " instead of " ++ request.orientation)])
    else match request.maxDuration, m.duration with
      | some longest, some d =>
        if longest < d then
          (false, log ++ [note .debug ("Skipping " ++ p.text ++ ": " ++ Spelled.fixed 1 d ++
            "s is longer than " ++ Spelled.fixed 1 longest ++ "s")])
        else (true, log)
      | _, _ => (true, log)

/-- The first file that passes a test, and what the tests log. -/
def firstFit (test : Path → Bool × List Log.Line) : List Path → Option Path × List Log.Line
  | [] => (none, [])
  | p :: ps =>
    match test p with
    | (true, log) => (some p, log)
    | (false, log) =>
      let (found, rest) := firstFit test ps
      (found, log ++ rest)

/-- The best file for a request that fits it. -/
def choose (l : Library) (h : Host) (request : Request T) (fs : Files) :
    Option Path × List Log.Line :=
  let candidates := l.candidates request.query request.kind fs
  match l.prober with
  | some prober => firstFit (fits h prober request fs) candidates
  | none => (candidates.head?, [])

def copyPath (request : Request T) (scratch : Scratch) (p : Path) : Path :=
  scratch.next (request.kind.stem ++ "_" ++ Query.slug request.query)
    ((p.extension?.map Text.lowercaseAscii).getD "bin")

def fetch (l : Library) (h : Host) (request : Request T) (scratch : Scratch) (fs : Files) :
    Fetched :=
  if !fs.isDirectory l.root then
    ⟨.error (.validation ("content library " ++ l.root.text ++ " is not a directory")), scratch, fs,
      []⟩
  else
    match l.choose h request fs with
    | (none, log) => ⟨.ok none, scratch, fs, log⟩
    | (some p, log) =>
      let dest := copyPath request scratch p
      match fs.copy p dest with
      | .error e => ⟨.error (.io e), scratch.advance, fs, log⟩
      | .ok fs =>
        ⟨.ok (some dest), scratch.advance, fs,
          log ++ [note .debug ("Copied " ++ p.text ++ " to " ++ dest.text)]⟩

def source (l : Library) (h : Host) : ContentSource T where
  name := "library"
  fetch _ request scratch fs := l.fetch h request scratch fs

end Library

end Montage
