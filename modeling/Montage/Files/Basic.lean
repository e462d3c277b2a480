import Montage.Files.Path

/-!
# Files

The files the program works on: a working directory, and an entry for each place below the root that
holds a file, a directory or a program. The root is a directory that needs no entry. A path is
followed one segment at a time, so that each segment before the last has to lead into a directory.
Names and paths have a greatest length, counted in bytes.
-/

namespace Montage

/-- Why an operation on files fails. -/
inductive IoError where
  | notFound
  | permissionDenied
  | exists
  | notDirectory
  | isDirectory
  | notText
  | notRegular
  | busy
  | tooLong
  | nulByte
  | other (message : String)
  deriving DecidableEq, Repr

def IoError.message : IoError → String
  | .notFound => "No such file or directory (os error 2)"
  | .permissionDenied => "Permission denied (os error 13)"
  | .exists => "File exists (os error 17)"
  | .notDirectory => "Not a directory (os error 20)"
  | .isDirectory => "Is a directory (os error 21)"
  | .notText => "stream did not contain valid UTF-8"
  | .notRegular => "the source path is neither a regular file nor a symlink to a regular file"
  | .busy => "Text file busy (os error 26)"
  | .tooLong => "File name too long (os error 36)"
  | .nulByte => "file name contained an unexpected NUL byte"
  | .other message => message

/-- The names on the way from the root to a place. -/
abbrev Place := List String

inductive Entry where
  | file (bytes : ByteArray)
  | directory
  | program

/-- Two files are the same when they hold the same bytes. -/
instance Entry.decidableEq : DecidableEq Entry
  | .file a, .file b => decidable_of_iff (a.data = b.data) (by rw [file.injEq, ByteArray.ext_iff])
  | .directory, .directory => isTrue rfl
  | .program, .program => isTrue rfl
  | .file _, .directory => isFalse nofun
  | .file _, .program => isFalse nofun
  | .directory, .file _ => isFalse nofun
  | .directory, .program => isFalse nofun
  | .program, .file _ => isFalse nofun
  | .program, .directory => isFalse nofun

/-- What can be read: the bytes of a file, or those of a program, which are no text. -/
def Entry.bytes? : Entry → Option ByteArray
  | .file bytes => some bytes
  | .program => some ⟨#[0x7f, 0x45, 0x4c, 0x46, 0xff]⟩
  | .directory => none

structure Files where
  /-- The working directory. -/
  here : Place
  entries : List (Place × Entry)

namespace Files

def at? (fs : Files) (p : Place) : Option Entry :=
  if p = [] then some .directory else fs.entries.lookup p

def set (fs : Files) (p : Place) (e : Entry) : Files :=
  { fs with entries := (p, e) :: fs.entries.filter fun m => m.1 ≠ p }

def erase (fs : Files) (p : Place) : Files :=
  { fs with entries := fs.entries.filter fun m => m.1 ≠ p }

theorem at?_set_self (fs : Files) {p : Place} (hp : p ≠ []) (e : Entry) :
    (fs.set p e).at? p = some e := by
  simp [at?, set, hp]

theorem lookup_filter_ne {p q : Place} (h : q ≠ p) (es : List (Place × Entry)) :
    (es.filter fun m => m.1 ≠ p).lookup q = es.lookup q := by
  induction es with
  | nil => rfl
  | cons m es ih =>
    obtain ⟨k, e⟩ := m
    by_cases hk : k = p
    · subst hk
      have hq : (q == k) = false := by simpa using h
      simp only [ne_eq, not_true_eq_false, decide_false, Bool.false_eq_true, not_false_eq_true,
        List.filter_cons_of_neg, List.lookup_cons, hq]
      exact ih
    · simp only [ne_eq, hk, not_false_eq_true, decide_true, List.filter_cons_of_pos,
        List.lookup_cons]
      split
      · rfl
      · exact ih

theorem at?_set_of_ne (fs : Files) {p q : Place} (h : q ≠ p) (e : Entry) :
    (fs.set p e).at? q = fs.at? q := by
  have hq : (q == p) = false := by simpa using h
  simp only [at?, set, List.lookup_cons, hq]
  rw [lookup_filter_ne h]

theorem at?_erase_of_ne (fs : Files) {p q : Place} (h : q ≠ p) :
    (fs.erase p).at? q = fs.at? q := by
  simp only [at?, erase]
  rw [lookup_filter_ne h]

def nameLimit : Nat := 255

def pathLimit : Nat := 4095

/-- The place that a path leads to from `p`. Nothing needs to be there. -/
def follow (fs : Files) : Place → List String → Except IoError Place
  | p, [] => .ok p
  | p, s :: rest =>
    match fs.at? p with
    | none => .error .notFound
    | some .directory =>
      if Path.isNoise s then fs.follow p rest
      else if s = ".." then fs.follow p.dropLast rest
      else if nameLimit < s.utf8ByteSize then .error .tooLong
      else fs.follow (p ++ [s]) rest
    | some _ => .error .notDirectory

def start (fs : Files) (p : Path) : Place := if p.isAbsolute then [] else fs.here

/-- Why a path can lead nowhere, whatever files there are. -/
def unusable? (p : Path) : Option IoError :=
  if p.text.toList.contains '\x00' then some .nulByte
  else if pathLimit < p.text.utf8ByteSize then some .tooLong
  else if p.text = "" then some .notFound
  else none

/-- The place that segments lead to from where a path starts. -/
def walk (fs : Files) (p : Path) (segments : List String) : Except IoError Place :=
  match unusable? p with
  | some e => .error e
  | none => fs.follow (fs.start p) segments

def locate (fs : Files) (p : Path) : Except IoError Place := fs.walk p p.segments

def entry (fs : Files) (p : Path) : Except IoError Entry := do
  match fs.at? (← fs.locate p) with
  | some e => .ok e
  | none => .error .notFound

def holds (fs : Files) (p : Path) : Bool := (fs.entry p).toOption.isSome

def isDirectory (fs : Files) (p : Path) : Bool :=
  match fs.entry p with
  | .ok .directory => true
  | _ => false

/-- A file, or a program. -/
def isFile (fs : Files) (p : Path) : Bool :=
  match fs.entry p with
  | .ok (.file _) => true
  | .ok .program => true
  | _ => false

def read (fs : Files) (p : Path) : Except IoError ByteArray := do
  match (← fs.entry p).bytes? with
  | some bytes => .ok bytes
  | none => .error .isDirectory

def readText (fs : Files) (p : Path) : Except IoError String := do
  match String.fromUTF8? (← fs.read p) with
  | some s => .ok s
  | none => .error .notText

/-- With a file of these contents at `p`. A path with a slash at its end is one of a directory, also
where there is nothing yet. A program is not written over. -/
def write (fs : Files) (p : Path) (bytes : ByteArray) : Except IoError Files :=
  if p.endsInSlash then do
    let _ ← fs.walk p p.way
    .error .isDirectory
  else do
    let place ← fs.locate p
    match fs.at? place with
    | some .directory => .error .isDirectory
    | some .program => .error .busy
    | _ => .ok (fs.set place (.file bytes))

def writeText (fs : Files) (p : Path) (s : String) : Except IoError Files := fs.write p s.toUTF8

def remove (fs : Files) (p : Path) : Except IoError Files := do
  let place ← fs.locate p
  match fs.at? place with
  | none => .error .notFound
  | some .directory => .error .isDirectory
  | some _ => .ok (fs.erase place)

/-- A directory made of each name on the way from `p`. The directories that are made stay also if
the way ends early. `made`: one of them was missing. `dotted`: a dot follows the last name, which
has to be a directory already. -/
def addDirectories (fs : Files) (made dotted : Bool) :
    Place → List String → Except IoError Unit × Files
  | _, [] => (.ok (), fs)
  | p, s :: rest =>
    if s = "/" || s = "." then fs.addDirectories made dotted p rest
    else if s = ".." then fs.addDirectories made dotted p.dropLast rest
    else if nameLimit < s.utf8ByteSize then (.error .tooLong, fs)
    else
      let next := p ++ [s]
      let isLast := rest.isEmpty
      match fs.at? next with
      | some .directory => fs.addDirectories made dotted next rest
      | some _ =>
        (.error (if isLast && dotted || !isLast && !made then .notDirectory else .exists), fs)
      | none =>
        if isLast && dotted then (.error .notFound, fs)
        else (fs.set next .directory).addDirectories true dotted next rest

/-- With a directory at `p`, and at each place on the way to it. The empty path is here. -/
def makeDirectory (fs : Files) (p : Path) : Except IoError Unit × Files :=
  match unusable? p with
  | some .notFound => (.ok (), fs)
  | some e => (.error e, fs)
  | none => fs.addDirectories false p.endsInDot (fs.start p) p.components

def samePlace (fs : Files) (p q : Path) : Bool :=
  match fs.locate p, fs.locate q with
  | .ok a, .ok b => a == b
  | _, _ => false

/-- With the contents of the file at `source` in a file at `dest`. The file at `dest` is emptied
before the first byte is read, so that a file is not copied onto itself. -/
def copy (fs : Files) (source dest : Path) : Except IoError Files :=
  match fs.read source with
  | .error .isDirectory => .error .notRegular
  | .error e => .error e
  | .ok bytes =>
    fs.write dest (if fs.samePlace source dest then ByteArray.empty else bytes)

/-- All files and programs at `root` and below. -/
def under (fs : Files) (root : Path) : List Path :=
  match fs.locate root with
  | .error _ => []
  | .ok place =>
    match fs.at? place with
    | none => []
    | some .directory =>
      fs.entries.filterMap fun (p, e) =>
        if e ≠ .directory && place.isPrefixOf p && place ≠ p then
          some (root.join ("/".intercalate (p.drop place.length)))
        else none
    | some _ => [root]

end Files

end Montage
