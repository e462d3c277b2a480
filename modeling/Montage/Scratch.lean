import Montage.Failure
import Montage.Decimal.Layout
import Montage.Text.Quoted

/-!
# Scratch directories

A run writes its transient files into one directory. No path in it is given out twice: each holds
the number of the paths given out before, and random digits besides. At the end the output is copied
out to its place.
-/

namespace Montage

structure Scratch where
  dir : Path
  /-- Made for one run and removed with it. -/
  isPrivate : Bool
  /-- The random digits of each path. -/
  uid : Nat → String
  /-- How many paths have been given out. -/
  issued : Nat

namespace Scratch

/-- The path with number `n`. -/
def pathAt (s : Scratch) (n : Nat) (stem extension : String) : Path :=
  s.dir.join (stem ++ "_" ++ padded 3 n ++ "_" ++ s.uid n ++ "." ++ extension)

def next (s : Scratch) (stem extension : String) : Path := s.pathAt s.issued stem extension

/-- With one path more given out. -/
def advance (s : Scratch) : Scratch := { s with issued := s.issued + 1 }

def fails (message : String) : Failure := .tool "workspace" message

/-- Scratch space in a directory of the user, which is made if it is missing. -/
def inDirectory (uid : Nat → String) (dir : Path) (fs : Files) :
    Except Failure (Scratch × Files) :=
  match fs.makeDirectory dir with
  | (.ok (), fs) => .ok (⟨dir, false, uid, 0⟩, fs)
  | (.error e, _) =>
    .error (fails ("failed to create scratch dir " ++ dir.text ++ ": " ++ e.message))

/-- Scratch space in a directory of its own below the one for temporary files. -/
def temporary (uid : Nat → String) (parent : Path) (name : String) (fs : Files) :
    Except Failure (Scratch × Files) :=
  let dir := parent.join name
  match fs.locate dir with
  | .ok place => .ok (⟨dir, true, uid, 0⟩, fs.set place .directory)
  | .error e =>
    .error (fails ("failed to create temp dir: " ++ e.message ++ " at path " ++
      Text.quoted dir.text))

/-- Without a transient file. One that is gone already does not matter. -/
def discard (p : Path) (fs : Files) : Except IoError Files :=
  match fs.remove p with
  | .error .notFound => .ok fs
  | r => r

/-- With the directories made on the way to a place. -/
def makeWay (dest : Path) (fs : Files) : Except IoError Unit × Files :=
  match dest.parent? with
  | some parent => fs.makeDirectory parent
  | none => (.ok (), fs)

/-- With the artifact copied to its place. The directories on the way there stay also if the copy
fails. -/
def finalize (artifact dest : Path) (fs : Files) : Except Failure Unit × Files :=
  if !fs.holds artifact then
    (.error (fails ("final artifact does not exist: " ++ artifact.text)), fs)
  else if artifact.same dest then (.ok (), fs)
  else match makeWay dest fs with
    | (.error e, fs) => (.error (.io e), fs)
    | (.ok (), fs) => match fs.copy artifact dest with
      | .ok copied => (.ok (), copied)
      | .error e =>
        (.error (fails ("failed to copy output to " ++ dest.text ++ ": " ++ e.message)), fs)

/-- The files after the run: a private directory is gone with all that is in it. -/
def leave (s : Scratch) (fs : Files) : Files :=
  if s.isPrivate then
    match fs.locate s.dir with
    | .ok place => { fs with entries := fs.entries.filter fun m => !place.isPrefixOf m.1 }
    | .error _ => fs
  else fs

end Scratch

end Montage
