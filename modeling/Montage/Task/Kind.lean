import Montage.Text.Blank
import Montage.Text.Lowercase

/-!
# Kinds of operations

The editing operations, the two names each of them goes by in a document, and what each means for
the chain of a run: the output of an operation on the main chain is what the next task works on,
while fetched media are only kept under a name.
-/

namespace Montage

inductive Kind where
  | addTextOverlay
  | trim
  | resize
  | changeSpeed
  | addSubtitles
  | addImageOverlay
  | autoFrame
  | colorCorrection
  | concat
  | zoompan
  | fetchVideo
  | fetchImage
  | overlayVideo
  deriving DecidableEq, Repr

/-- What the output of a task becomes. -/
inductive ChainEffect where
  | mainChain
  | sideArtifact
  deriving DecidableEq, Repr

namespace Kind

def all : List Kind := [addTextOverlay, trim, resize, changeSpeed, addSubtitles, addImageOverlay,
  autoFrame, colorCorrection, concat, zoompan, fetchVideo, fetchImage, overlayVideo]

theorem mem_all (k : Kind) : k ∈ all := by cases k <;> decide

/-- The name in plan documents. -/
def wireName : Kind → String
  | addTextOverlay => "add_text_overlay"
  | trim => "trim"
  | resize => "resize"
  | changeSpeed => "change_speed"
  | addSubtitles => "add_subtitles"
  | addImageOverlay => "add_image_overlay"
  | autoFrame => "auto_frame_face"
  | colorCorrection => "color_correction"
  | concat => "concat"
  | zoompan => "zoompan"
  | fetchVideo => "fetch_stock_video"
  | fetchImage => "fetch_stock_image"
  | overlayVideo => "overlay_video"

/-- A descriptive name, which documents may use as well. -/
def descriptiveName : Kind → String
  | addTextOverlay => "overlay-text"
  | trim => "time-trim"
  | resize => "resize"
  | changeSpeed => "speed-change"
  | addSubtitles => "burn-subtitles"
  | addImageOverlay => "image-overlay"
  | autoFrame => "auto-crop-to-ratio"
  | colorCorrection => "color-adjust"
  | concat => "concatenate"
  | zoompan => "zoom-pan"
  | fetchVideo => "fetch-external-video"
  | fetchImage => "fetch-external-image"
  | overlayVideo => "overlay-external-video"

/-- The kind of a name, whatever its case and the blanks around it. -/
def ofName? (name : String) : Option Kind :=
  let name := Text.lowercaseAscii (Text.trim name)
  all.find? fun k => k.wireName == name || k.descriptiveName == name

theorem ofName?_wireName (k : Kind) : ofName? k.wireName = some k := by
  cases k <;> decide +kernel

theorem ofName?_descriptiveName (k : Kind) : ofName? k.descriptiveName = some k := by
  cases k <;> decide +kernel

/-- Takes media from the content source. -/
def isFetch : Kind → Bool
  | fetchVideo => true
  | fetchImage => true
  | _ => false

/-- May be passed over when the media it inserts were never found. -/
def isOptionalInsert : Kind → Bool
  | overlayVideo => true
  | addImageOverlay => true
  | _ => false

def effect (k : Kind) : ChainEffect := if k.isFetch then .sideArtifact else .mainChain

end Kind

end Montage
