import Montage.Task.Params
import Montage.Decimal.Layout

/-!
# Filters of the media tool

The texts that tell the media tool what to do with a picture. Options of a filter are parted by
colons, and a text inside quotes is escaped so that it cannot end its option.
-/

namespace Montage.Filter
open TimeScale

/-- A character inside a quoted option. -/
def escapeChar (c : Char) : List Char :=
  if c = '\\' || c = ':' || c = '\x27' then ['\\', c] else [c]

/-- A text inside a quoted option. -/
def escape (s : String) : String := String.ofList (s.toList.flatMap escapeChar)

/-- Place of a picture laid over another, by the name of an anchor. -/
def overlayPosition (position : String) : String :=
  match position with
  | "top_left" => "10:10"
  | "top_center" => "(main_w-overlay_w)/2:10"
  | "top_right" => "main_w-overlay_w-10:10"
  | "bottom_left" => "10:main_h-overlay_h-10"
  | "bottom_center" => "(main_w-overlay_w)/2:main_h-overlay_h-10"
  | "center" => "(main_w-overlay_w)/2:(main_h-overlay_h)/2"
  | _ => "main_w-overlay_w-10:main_h-overlay_h-10"

/-- Place of a text, by the name of an anchor. -/
def textPosition (position : String) (margin : UInt32) : String :=
  let m := toString margin.toNat
  match position with
  | "top_center" => "x=(w-text_w)/2:y=" ++ m
  | "top_left" => "x=" ++ m ++ ":y=" ++ m
  | "top_right" => "x=w-text_w-" ++ m ++ ":y=" ++ m
  | "bottom_left" => "x=" ++ m ++ ":y=h-th-" ++ m
  | "bottom_right" => "x=w-text_w-" ++ m ++ ":y=h-th-" ++ m
  | "center" => "x=(w-text_w)/2:y=(h-text_h)/2"
  | _ => "x=(w-text_w)/2:y=h-th-" ++ m

/-- The font of text overlays where the settings name none. -/
def defaultFont : Path := ⟨"/usr/share/fonts/truetype/dejavu/DejaVuSans.ttf"⟩

variable {T : Type} [TimeScale T] [Spelled T]

/-- Shown from `start` on, and until `stop?` where there is one. -/
def enable (start : T) (stop? : Option T) : String :=
  match stop? with
  | some stop =>
    "enable='between(t," ++ Spelled.plain start ++ "," ++ Spelled.plain stop ++ ")'"
  | none => "enable='gte(t," ++ Spelled.plain start ++ ")'"

def percent? (s : String) : Option T :=
  match s.toList.reverse with
  | '%' :: cs => do (← Numeral.read? (Text.trim (String.ofList cs.reverse))) |> ofNumeral?
  | _ => none

/-- A coordinate along a dimension of the frame. -/
def coordinate (c : Coordinate T) (dimension : String) : String :=
  match (percent? c.text : Option T) with
  | some x => "(" ++ dimension ++ "*" ++ Spelled.fixed 4 (x / ofNat 100) ++ ")"
  | none => c.text

/-- The place of a text overlay: its coordinates if it has both, or else its anchor. -/
def place (p : TextOverlay T) : String :=
  match p.x, p.y with
  | some x, some y => "x=" ++ coordinate x "w" ++ ":y=" ++ coordinate y "h"
  | _, _ => textPosition p.position p.margin

/-- The colour of the box behind a text, if it has one. -/
def boxColor? (background : Option String) : Option String :=
  match background with
  | none => none
  | some "none" => none
  | some "" => none
  | some "dark" => some "black@0.55"
  | some "light" => some "white@0.55"
  | some color => some color

def shadowOptions (p : TextOverlay T) : List String :=
  if p.shadow then ["shadowx=2", "shadowy=2", "shadowcolor=black@0.8"] else []

def borderOptions (p : TextOverlay T) : List String :=
  match p.borderColor with
  | some color =>
    if 0 < p.borderWidth then
      ["borderw=" ++ toString p.borderWidth.toNat, "bordercolor=" ++ color]
    else []
  | none => []

def boxOptions (p : TextOverlay T) : List String :=
  match boxColor? p.background with
  | some color => ["box=1", "boxcolor=" ++ color, "boxborderw=12"]
  | none => []

def drawText (p : TextOverlay T) (font : Path) : String :=
  ":".intercalate <|
    ["drawtext=fontfile='" ++ font.text ++ "'", "text='" ++ escape p.text ++ "'",
      "fontsize=" ++ toString p.fontSize.toNat, "fontcolor=" ++ p.fontColor, place p] ++
    shadowOptions p ++ borderOptions p ++ boxOptions p ++
    match p.start with
    | some start => [enable start p.stop]
    | none => []

end Montage.Filter
