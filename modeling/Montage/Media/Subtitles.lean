import Montage.Task.Params
import Montage.Decimal.Layout

/-!
# Subtitle files

Subtitles are written as numbered blocks with a line of times and the text. A cue without a text is
left out, but keeps its number.
-/

namespace Montage
open TimeScale

namespace SubtitleCue
variable {T : Type} [TimeScale T]

/-- Hours, minutes, seconds and thousandths, cut and not rounded. A time below zero is zero. -/
def stamp (t : T) : String :=
  let t := later t zero
  let seconds := toWord t
  let thousandths := min (toWord ((t - TimeScale.floor t) * ofNat 1000)) 999
  padded 2 (seconds / 3600) ++ ":" ++ padded 2 (seconds % 3600 / 60) ++ ":" ++
    padded 2 (seconds % 60) ++ "," ++ padded 3 thousandths

def block (n : Nat) (c : SubtitleCue T) : String :=
  toString n ++ "\n" ++ stamp c.start ++ " --> " ++ stamp c.stopOrDefault ++ "\n" ++
    Text.trim c.text ++ "\n"

/-- The blocks of cues that are numbered from `n` on. -/
def blocksFrom (n : Nat) : List (SubtitleCue T) → List String
  | [] => []
  | c :: cs =>
    if Text.isBlankText c.text then blocksFrom (n + 1) cs else c.block n :: blocksFrom (n + 1) cs

def fileText (cs : List (SubtitleCue T)) : String := "\n".intercalate (blocksFrom 1 cs)

end SubtitleCue

end Montage
