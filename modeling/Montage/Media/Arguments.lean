import Montage.Media.Filter

/-!
# Arguments of the media tool

The argument vector of each operation, for paths that are already resolved. The output is always the
last argument, and every input follows a flag of its own.
-/

namespace Montage.Arguments
open TimeScale

/-- One input through a filter, its sound as it is. -/
def filtered (input : Path) (filter : String) (output : Path) : List String :=
  ["-y", "-i", input.text, "-vf", filter, "-c:a", "copy", output.text]

def copy (input output : Path) : List String :=
  ["-y", "-i", input.text, "-c", "copy", output.text]

/-- Two inputs through a graph that makes the picture `v`, with the sound of the first. -/
def composed (input : Path) (second : List String) (graph : String) (output : Path) :
    List String :=
  ["-y", "-i", input.text] ++ second ++
    ["-filter_complex", graph, "-map", "[v]", "-map", "0:a?", "-c:a", "copy", output.text]

/-- Without a height, the picture keeps its proportions. -/
def resize (p : Resize) (input output : Path) : List String :=
  let height := match p.height with
    | some h => toString h.toNat
    | none => "-1"
  filtered input ("scale=" ++ toString p.width.toNat ++ ":" ++ height) output

/-- The middle of the picture, at its full height. -/
def autoFrame (p : AutoFrame) (input output : Path) : List String :=
  let width := "ih*" ++ toString p.ratio.width.toNat ++ "/" ++ toString p.ratio.height.toNat
  filtered input ("crop=" ++ width ++ ":ih:(iw-" ++ width ++ ")/2:0") output

def addSubtitles (file input output : Path) : List String :=
  filtered input ("subtitles='" ++ Filter.escape file.text ++ "'") output

def concat (list output : Path) : List String :=
  ["-y", "-f", "concat", "-safe", "0", "-i", list.text, "-c", "copy", output.text]

variable {T : Type} [TimeScale T] [Spelled T]

/-- The start is sought before the input is opened, so that one beyond the end is no failure. -/
def trim (p : Trim T) (input output : Path) : List String :=
  ["-y", "-ss", Spelled.plain p.start] ++
    (match p.stop with
      | some stop => ["-to", Spelled.plain stop]
      | none => []) ++
    ["-i", input.text, "-c", "copy", output.text]

/-- The sound is sped up or slowed down by a factor of two at most. -/
def changeSpeed (p : Speed T) (input output : Path) : List String :=
  let tempo := clamp (ofNat 1 / ofNat 2) (ofNat 2) p.factor
  ["-y", "-i", input.text, "-filter:v", "setpts=" ++ Spelled.plain (ofNat 1 / p.factor) ++ "*PTS",
    "-filter:a", "atempo=" ++ Spelled.plain tempo, output.text]

/-- Only what differs from zero is adjusted. -/
def colorCorrection (p : ColorCorrection T) (input output : Path) : List String :=
  let adjustment (name : String) (x shown : T) : List String :=
    if x == zero then [] else [name ++ "=" ++ Spelled.plain shown]
  let adjustments := adjustment "brightness" p.brightness p.brightness ++
    adjustment "contrast" p.contrast p.contrast ++
    adjustment "saturation" p.saturation (ofNat 1 + p.saturation)
  if adjustments.isEmpty then copy input output
  else filtered input ("eq=" ++ ":".intercalate adjustments) output

/-- At 25 frames a second. -/
def zoompan (p : Zoompan T) (input output : Path) : List String :=
  let frames := toWord (p.duration * ofNat 25)
  filtered input
    ("zoompan=z='min(zoom+0.0015," ++ Spelled.plain p.zoom ++ ")':d=" ++ toString frames ++
      ":s=1280x720")
    output

def addTextOverlay (p : TextOverlay T) (font input output : Path) : List String :=
  filtered input (Filter.drawText p font) output

/-- An image over the input, for the whole time where the overlay has no start. -/
def addImageOverlay (p : ImageOverlay T) (image input output : Path) : List String :=
  let window := match p.start with
    | some start => ":" ++ Filter.enable start p.stop
    | none => ""
  composed input ["-i", image.text]
    ("[1:v]format=rgba,colorchannelmixer=aa=" ++ Spelled.plain p.opacity ++
      "[img];[0:v][img]overlay=" ++ Filter.overlayPosition p.position ++ window ++ "[v]")
    output

/-- A clip over the input, moved to its start and fitted to the frame. -/
def overlayVideo (p : VideoOverlay T) (clip input output : Path) : List String :=
  composed input ["-itsoffset", Spelled.plain p.start, "-i", clip.text]
    ("[1:v][0:v]scale2ref[ov][base];[base][ov]overlay=eof_action=pass:" ++
      Filter.enable p.start p.stop ++ "[v]")
    output

end Montage.Arguments
