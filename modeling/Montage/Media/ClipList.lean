import Montage.Files.Basic

/-!
# Clip lists

The clips to be joined are given to the media tool in a file with one quoted path on each line.
Paths are absolute, so that it does not matter where the file stands.
-/

namespace Montage

def Files.herePath (fs : Files) : Path := ⟨"/" ++ "/".intercalate fs.here⟩

/-- A path that means the same from everywhere. -/
def Files.absolute (fs : Files) (p : Path) : Path :=
  if p.isAbsolute then p else fs.herePath.join p.text

namespace ClipList

/-- A quote inside a quoted path closes the quotes, stands escaped and opens them again. -/
def escapeChar (c : Char) : List Char := if c = '\x27' then ['\x27', '\\', c, '\x27'] else [c]

def line (p : Path) : String :=
  "file '" ++ String.ofList (p.text.toList.flatMap escapeChar) ++ "'\n"

def fileText (fs : Files) (clips : List Path) : String :=
  String.join (clips.map fun p => line (fs.absolute p))

end ClipList

end Montage
