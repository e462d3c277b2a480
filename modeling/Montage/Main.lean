import Montage.Cli.Basic

/-!
# The command line

The outer layer of the program: it reads the files that the arguments name, runs the command, prints
what there is to print and writes the files that are new. It starts no programs, so that a plan is
run only up to the point where the media program is needed.
-/

namespace Montage.Outer

/-- A host on which no program can be started. -/
def host : Host where
  launch _ _ _ _ := .refused .permissionDenied

/-- With a directory at every step of the way to a place. -/
def withWay (fs : Files) (p : Place) : Files :=
  (fs.makeDirectory ⟨"/" ++ "/".intercalate p.dropLast⟩).2

/-- With the file of this name, if there is one. -/
def readEntry (fs : Files) (name : String) : IO Files := do
  if name.isEmpty then return fs
  try
    let bytes ← IO.FS.readBinFile name
    let place := (fs.absolute ⟨name⟩).components.drop 1
    return (withWay fs place).set place (.file bytes)
  catch _ => return fs

/-- The files that arguments name, with the transcripts beside them. -/
def readFiles (arguments : List String) : IO Files := do
  let here := (Path.mk (← IO.currentDir).toString).components.drop 1
  let fs := withWay ⟨here, []⟩ (here ++ [""])
  let names := arguments ++ arguments.map fun a => (Transcript.sidecar ⟨a⟩).text
  names.foldlM readEntry fs

def writeFiles (before after : Files) : IO Unit := do
  for (place, entry) in after.entries do
    match entry with
    | .file bytes =>
      if before.at? place ≠ some entry then
        IO.FS.createDirAll ("/" ++ "/".intercalate place.dropLast)
        IO.FS.writeBinFile ("/" ++ "/".intercalate place) bytes
    | _ => pure ()

def surroundings (files : Files) (uid : String) : Surroundings where
  host := host
  files := files
  programs := []
  temporary := (⟨"/tmp"⟩, "cutforge-" ++ uid)
  uid _ := uid
  elapsed := "0.0"

end Montage.Outer

def main (arguments : List String) : IO UInt32 := do
  let files ← Montage.Outer.readFiles arguments
  let random ← IO.rand 0 (Nat.pow 2 32 - 1)
  let uid := String.ofList (List.replicate 8 '0' ++ Montage.Text.hex random)
  let uid := Montage.Text.takeLast 8 uid
  let finish := Montage.Cli.main Float (Montage.Outer.surroundings files uid) none arguments
  for line in finish.log do
    IO.eprintln line.text
  IO.eprint finish.errors
  IO.print finish.printed
  Montage.Outer.writeFiles files finish.files
  return UInt32.ofNat finish.status
