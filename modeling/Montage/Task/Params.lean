import Montage.Config.Basic

/-!
# Parameters of operations

One record for each kind of operation, how it is read from a document and how it is written back
with its defaults filled in. A size may be given as any number of pixels and is rounded to a whole
one.
-/

namespace Montage
open TimeScale

/-- A place in the frame: pixels, or an expression of the media tool or a percentage. -/
inductive Coordinate (T : Type) where
  | pixels (x : T)
  | expr (s : String)
  deriving BEq, Repr

structure TextOverlay (T : Type) where
  text : String
  position : String
  fontSize : UInt32
  fontColor : String
  start : Option T
  stop : Option T
  shadow : Bool
  background : Option String
  borderColor : Option String
  borderWidth : UInt32
  margin : UInt32
  x : Option (Coordinate T)
  y : Option (Coordinate T)
  deriving BEq, Repr

structure Trim (T : Type) where
  start : T
  stop : Option T
  deriving BEq, Repr

structure Resize where
  width : UInt32
  height : Option UInt32
  deriving BEq, Repr

structure Speed (T : Type) where
  factor : T
  deriving BEq, Repr

/-- A piece of text shown for a time. Without an end it stays for a second. -/
structure SubtitleCue (T : Type) where
  start : T
  stop : Option T
  text : String
  deriving BEq, Repr

structure Subtitles (T : Type) where
  cues : List (SubtitleCue T)
  deriving BEq, Repr

structure ImageOverlay (T : Type) where
  /-- The name of a fetched image, or a path. -/
  image : String
  position : String
  start : Option T
  stop : Option T
  opacity : T
  deriving BEq, Repr

structure AspectRatio where
  width : UInt32
  height : UInt32
  deriving DecidableEq, Repr

structure AutoFrame where
  ratio : AspectRatio
  deriving BEq, Repr

structure ColorCorrection (T : Type) where
  brightness : T
  contrast : T
  saturation : T
  deriving BEq, Repr

structure Concat where
  /-- Clips to join where the task names no inputs. -/
  clips : List Path
  deriving BEq, Repr

structure Zoompan (T : Type) where
  zoom : T
  duration : T
  deriving BEq, Repr

structure FetchVideo (T : Type) where
  query : String
  alternatives : List String
  maxDuration : T
  orientation : String
  deriving BEq, Repr

structure FetchImage where
  query : String
  alternatives : List String
  orientation : String
  deriving BEq, Repr

structure VideoOverlay (T : Type) where
  start : T
  /-- Without an end the clip plays until it runs out. -/
  stop : Option T
  /-- The name of a fetched clip. -/
  clip : String
  deriving BEq, Repr

def SubtitleCue.stopOrDefault {T : Type} [TimeScale T] (c : SubtitleCue T) : T :=
  c.stop.getD (c.start + ofNat 1)

def Coordinate.text {T : Type} [Spelled T] : Coordinate T → String
  | .pixels x => Spelled.plain x
  | .expr s => s

namespace AspectRatio

/-- What is wrong with the text of a ratio. -/
inductive Flaw where
  | notRatio (text : String)
  | badWidth (text : String)
  | badHeight (text : String)
  | zeroSide (text : String)
  deriving DecidableEq, Repr

def Flaw.message : Flaw → String
  | .notRatio s => "aspect ratio '" ++ s ++ "' is not W:H"
  | .badWidth s => "bad ratio width '" ++ s ++ "'"
  | .badHeight s => "bad ratio height '" ++ s ++ "'"
  | .zeroSide s => "aspect ratio '" ++ s ++ "' has a zero side"

/-- A side: digits, with a plus sign at most, for a number of 32 bits. -/
def side? (s : String) : Option UInt32 :=
  ((Decimal.natural? (Text.trim s).toList).filter (· < Nat.pow 2 32)).map UInt32.ofNat

/-- The ratio of a text, whose sides are parted by its first colon. -/
def ofText (s : String) : Except Flaw AspectRatio := do
  let cs := s.toList
  match cs.dropWhile (· ≠ ':') with
  | [] => .error (.notRatio s)
  | _ :: h =>
    let w := String.ofList (cs.takeWhile (· ≠ ':'))
    let h := String.ofList h
    let some width := side? w | .error (.badWidth w)
    let some height := side? h | .error (.badHeight h)
    if width = 0 || height = 0 then .error (.zeroSide s) else .ok ⟨width, height⟩

def text (r : AspectRatio) : String := toString r.width.toNat ++ ":" ++ toString r.height.toNat

end AspectRatio

/-! ## Reading -/

section Reading
variable {T : Type} [TimeScale T]

def plainText : Reader T String := .text "a string"

/-- A number from zero to the greatest of 32 bits, rounded to a whole one. -/
def pixels : Reader T UInt32 :=
  Reader.real.andThen fun x =>
    if isFinite x && zero ≤ x && x ≤ ofNat (Nat.pow 2 32 - 1) then
      .ok (UInt32.ofNat (toWord (TimeScale.round x)))
    else .error (.notWhole x)

def Coordinate.reader : Reader T (Coordinate T) where
  shape := .whole
  read
    | .number n => .ok (.pixels n.toReal)
    | .text s => .ok (.expr s)
    | _ => .error (.noVariant "Coordinate")

def TextOverlay.record : Record T (TextOverlay T) :=
  (Record.of "TextOverlayParams" TextOverlay.mk)
    |>.field (.defaulted "text" plainText "")
    |>.field (.defaulted "position" plainText "bottom_center")
    |>.field (.defaulted "font_size" pixels 48)
    |>.field (.defaulted "font_color" plainText "white")
    |>.field (.optional "start_time" .real)
    |>.field (.optional "end_time" .real)
    |>.field (.defaulted "shadow" .bool false)
    |>.field (.optional "background" plainText)
    |>.field (.optional "border_color" plainText)
    |>.field (.defaulted "border_width" pixels 0)
    |>.field (.defaulted "margin" pixels 50)
    |>.field (.optional "x" Coordinate.reader)
    |>.field (.optional "y" Coordinate.reader)

def Trim.record : Record T (Trim T) :=
  (Record.of "TrimParams" Trim.mk)
    |>.field (.defaulted "start" .real zero)
    |>.field (.optional "end" .real)

def Resize.record : Record T Resize :=
  (Record.of "ResizeParams" Resize.mk)
    |>.field (.defaulted "width" pixels 1280)
    |>.field (.optional "height" pixels)

def Speed.record : Record T (Speed T) :=
  (Record.of "SpeedParams" Speed.mk) |>.field (.defaulted "factor" .real (ofNat 1))

def SubtitleCue.record : Record T (SubtitleCue T) :=
  (Record.of "SubtitleCue" SubtitleCue.mk)
    |>.field (.defaulted "start" .real zero)
    |>.field (.optional "end" .real)
    |>.field (.defaulted "text" plainText "")

def Subtitles.record : Record T (Subtitles T) :=
  (Record.of "SubtitlesParams" Subtitles.mk)
    |>.field (.defaulted "segments" (.list SubtitleCue.record.reader) [])

def ImageOverlay.record : Record T (ImageOverlay T) :=
  (Record.of "ImageOverlayParams" ImageOverlay.mk)
    |>.field ⟨"image", ["image_path"], plainText, .refused⟩
    |>.field (.defaulted "position" plainText "bottom_right")
    |>.field (.optional "start_time" .real)
    |>.field (.optional "end_time" .real)
    |>.field (.defaulted "opacity" .real (ofNat 1))

def AspectRatio.reader : Reader T AspectRatio :=
  plainText.andThen fun s => match AspectRatio.ofText s with
    | .ok r => .ok r
    | .error e => .error (.refused e.message)

def AutoFrame.record : Record T AutoFrame :=
  (Record.of "AutoFrameParams" AutoFrame.mk)
    |>.field (.defaulted "target_ratio" AspectRatio.reader ⟨9, 16⟩)

def ColorCorrection.record : Record T (ColorCorrection T) :=
  (Record.of "ColorParams" ColorCorrection.mk)
    |>.field (.defaulted "brightness" .real zero)
    |>.field (.defaulted "contrast" .real zero)
    |>.field (.defaulted "saturation" .real zero)

def Concat.record : Record T Concat :=
  (Record.of "ConcatParams" Concat.mk)
    |>.field (.defaulted "clip_paths" (.list Config.path) [])

def Zoompan.record : Record T (Zoompan T) :=
  (Record.of "ZoompanParams" Zoompan.mk)
    |>.field (.defaulted "zoom" .real (ofDecimal ⟨false, 12, -1⟩))
    |>.field (.defaulted "duration" .real (ofNat 2))

def FetchVideo.record : Record T (FetchVideo T) :=
  (Record.of "FetchVideoParams" FetchVideo.mk)
    |>.field (.defaulted "query" plainText "")
    |>.field (.defaulted "alternative_queries" (.list plainText) [])
    |>.field (.defaulted "duration_max" .real (ofNat 30))
    |>.field (.defaulted "orientation" plainText "landscape")

def FetchImage.record : Record T FetchImage :=
  (Record.of "FetchImageParams" FetchImage.mk)
    |>.field (.defaulted "query" plainText "")
    |>.field (.defaulted "alternative_queries" (.list plainText) [])
    |>.field (.defaulted "orientation" plainText "landscape")

def VideoOverlay.record : Record T (VideoOverlay T) :=
  (Record.of "VideoOverlayParams" VideoOverlay.mk)
    |>.field (.required "start_time" .real)
    |>.field (.optional "end_time" .real)
    |>.field (.required "clip" plainText)

end Reading

/-! ## Writing -/

section Writing
variable {T : Type} [TimeScale T]

def member (key : String) (j : Json T) : Members T := [(key, j)]

/-- A member that is left out for nothing. -/
def memberIf (key : String) : Option (Json T) → Members T
  | some j => [(key, j)]
  | none => []

/-- A member that is left out for no texts. -/
def memberTexts (key : String) (ss : List String) : Members T :=
  if ss.isEmpty then [] else [(key, Json.texts ss)]

def Json.word (n : UInt32) : Json T := .nat n.toNat

def Coordinate.json : Coordinate T → Json T
  | .pixels x => .real x
  | .expr s => .text s

def TextOverlay.json (p : TextOverlay T) : Json T :=
  .record (member "text" (.text p.text) ++ member "position" (.text p.position) ++
    member "font_size" (.word p.fontSize) ++ member "font_color" (.text p.fontColor) ++
    memberIf "start_time" (p.start.map .real) ++ memberIf "end_time" (p.stop.map .real) ++
    member "shadow" (.bool p.shadow) ++ memberIf "background" (p.background.map .text) ++
    memberIf "border_color" (p.borderColor.map .text) ++
    member "border_width" (.word p.borderWidth) ++ member "margin" (.word p.margin) ++
    memberIf "x" (p.x.map Coordinate.json) ++ memberIf "y" (p.y.map Coordinate.json))

def Trim.json (p : Trim T) : Json T :=
  .record (member "start" (.real p.start) ++ memberIf "end" (p.stop.map .real))

def Resize.json (p : Resize) : Json T :=
  .record (member "width" (.word p.width) ++ memberIf "height" (p.height.map .word))

def Speed.json (p : Speed T) : Json T := .record (member "factor" (.real p.factor))

def SubtitleCue.json (c : SubtitleCue T) : Json T :=
  .record (member "start" (.real c.start) ++ memberIf "end" (c.stop.map .real) ++
    member "text" (.text c.text))

def Subtitles.json (p : Subtitles T) : Json T :=
  .record (member "segments" (.list (p.cues.map SubtitleCue.json)))

def ImageOverlay.json (p : ImageOverlay T) : Json T :=
  .record (member "image" (.text p.image) ++ member "position" (.text p.position) ++
    memberIf "start_time" (p.start.map .real) ++ memberIf "end_time" (p.stop.map .real) ++
    member "opacity" (.real p.opacity))

def AutoFrame.json (p : AutoFrame) : Json T :=
  .record (member "target_ratio" (.text p.ratio.text))

def ColorCorrection.json (p : ColorCorrection T) : Json T :=
  .record (member "brightness" (.real p.brightness) ++ member "contrast" (.real p.contrast) ++
    member "saturation" (.real p.saturation))

def Concat.json (p : Concat) : Json T :=
  .record (memberTexts "clip_paths" (p.clips.map Path.text))

def Zoompan.json (p : Zoompan T) : Json T :=
  .record (member "zoom" (.real p.zoom) ++ member "duration" (.real p.duration))

def FetchVideo.json (p : FetchVideo T) : Json T :=
  .record (member "query" (.text p.query) ++
    memberTexts "alternative_queries" p.alternatives ++
    member "duration_max" (.real p.maxDuration) ++ member "orientation" (.text p.orientation))

def FetchImage.json (p : FetchImage) : Json T :=
  .record (member "query" (.text p.query) ++
    memberTexts "alternative_queries" p.alternatives ++ member "orientation" (.text p.orientation))

def VideoOverlay.json (p : VideoOverlay T) : Json T :=
  .record (member "start_time" (.real p.start) ++ memberIf "end_time" (p.stop.map .real) ++
    member "clip" (.text p.clip))

end Writing

end Montage
