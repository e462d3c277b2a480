import Montage.Task.Params
import Montage.Task.Kind

/-!
# Operations

An operation is a kind with the parameters of that kind. A type name that no kind goes by is kept
with its parameters as they are, so that a run can pass over it. Operations are made by
`Operation.ofParts`, which refuses parameters that do not fit the kind or that no operation can work
with.
-/

namespace Montage
open TimeScale

inductive Operation (T : Type) where
  | addTextOverlay (p : TextOverlay T)
  | trim (p : Trim T)
  | resize (p : Resize)
  | changeSpeed (p : Speed T)
  | addSubtitles (p : Subtitles T)
  | addImageOverlay (p : ImageOverlay T)
  | autoFrame (p : AutoFrame)
  | colorCorrection (p : ColorCorrection T)
  | concat (p : Concat)
  | zoompan (p : Zoompan T)
  | fetchVideo (p : FetchVideo T)
  | fetchImage (p : FetchImage)
  | overlayVideo (p : VideoOverlay T)
  | unrecognized (typeName : String) (params : Json T)
  deriving BEq, Repr

namespace Operation

/-- Why parameters make no operation. -/
inductive Flaw (T : Type) where
  | misfit (m : Misfit T)
  | trimWindow (start : T) (stop : Option T)
  | resizeSize
  | speedFactor (factor : T)
  | imageOverlay
  | zoompan
  | fetchDuration
  | videoOverlay

def Flaw.message {T : Type} [Spelled T] : Flaw T → String
  | .misfit m => m.message
  | .trimWindow start stop =>
    "trim window " ++ Spelled.plain start ++ ".." ++
      (match stop with
        | some t => "Some(" ++ Spelled.diagnostic t ++ ")"
        | none => "None") ++
      " is empty or negative"
  | .resizeSize => "resize dimensions must be positive"
  | .speedFactor factor => "speed factor " ++ Spelled.plain factor ++ " must be positive"
  | .imageOverlay => "image overlay needs an image and an opacity in [0, 1]"
  | .zoompan => "zoompan needs zoom >= 1 and a positive duration"
  | .fetchDuration => "duration_max must be positive"
  | .videoOverlay => "overlay_video needs a non-negative start_time and a clip"

variable {T : Type}

/-- The known kind, if it is one. -/
def kind? : Operation T → Option Kind
  | addTextOverlay _ => some .addTextOverlay
  | trim _ => some .trim
  | resize _ => some .resize
  | changeSpeed _ => some .changeSpeed
  | addSubtitles _ => some .addSubtitles
  | addImageOverlay _ => some .addImageOverlay
  | autoFrame _ => some .autoFrame
  | colorCorrection _ => some .colorCorrection
  | concat _ => some .concat
  | zoompan _ => some .zoompan
  | fetchVideo _ => some .fetchVideo
  | fetchImage _ => some .fetchImage
  | overlayVideo _ => some .overlayVideo
  | unrecognized _ _ => none

/-- The type name in plan documents. -/
def typeName : Operation T → String
  | unrecognized typeName _ => typeName
  | op => match op.kind? with
    | some k => k.wireName
    | none => "unknown"

variable [TimeScale T]

/-- The parameters with their defaults filled in. -/
def paramsJson : Operation T → Json T
  | addTextOverlay p => p.json
  | trim p => p.json
  | resize p => p.json
  | changeSpeed p => p.json
  | addSubtitles p => p.json
  | addImageOverlay p => p.json
  | autoFrame p => p.json
  | colorCorrection p => p.json
  | concat p => p.json
  | zoompan p => p.json
  | fetchVideo p => p.json
  | fetchImage p => p.json
  | overlayVideo p => p.json
  | unrecognized _ params => params

/-- What is wrong with parameters that fit their kind. -/
def flaw? : Operation T → Option (Flaw T)
  | trim p =>
    if zero ≤ p.start && p.stop.all (p.start < ·) then none
    else some (.trimWindow p.start p.stop)
  | resize p => if 0 < p.width && p.height != some 0 then none else some .resizeSize
  | changeSpeed p =>
    if isFinite p.factor && zero < p.factor then none else some (.speedFactor p.factor)
  | addImageOverlay p =>
    if !Text.isBlankText p.image && zero ≤ p.opacity && p.opacity ≤ ofNat 1 then none
    else some .imageOverlay
  | zoompan p => if ofNat 1 ≤ p.zoom && zero < p.duration then none else some .zoompan
  | fetchVideo p => if zero < p.maxDuration then none else some .fetchDuration
  | overlayVideo p =>
    if zero ≤ p.start && !Text.isBlankText p.clip then none else some .videoOverlay
  | _ => none

/-- The operation of a kind with parameters as they were read. -/
def readParams (k : Kind) (params : Json T) : Except (Misfit T) (Operation T) :=
  match k with
  | .addTextOverlay => (TextOverlay.record.read params).map addTextOverlay
  | .trim => (Trim.record.read params).map trim
  | .resize => (Resize.record.read params).map resize
  | .changeSpeed => (Speed.record.read params).map changeSpeed
  | .addSubtitles => (Subtitles.record.read params).map addSubtitles
  | .addImageOverlay => (ImageOverlay.record.read params).map addImageOverlay
  | .autoFrame => (AutoFrame.record.read params).map autoFrame
  | .colorCorrection => (ColorCorrection.record.read params).map colorCorrection
  | .concat => (Concat.record.read params).map concat
  | .zoompan => (Zoompan.record.read params).map zoompan
  | .fetchVideo => (FetchVideo.record.read params).map fetchVideo
  | .fetchImage => (FetchImage.record.read params).map fetchImage
  | .overlayVideo => (VideoOverlay.record.read params).map overlayVideo

/-- The operation of a type name and its parameters, for which null stands where there are none. -/
def ofParts (typeName : String) (params : Json T) : Except (Flaw T) (Operation T) :=
  let params := match params with
    | .null => .object []
    | j => j
  match Kind.ofName? typeName with
  | none => .ok (.unrecognized typeName params)
  | some k =>
    match readParams k params with
    | .error m => .error (.misfit m)
    | .ok op => match op.flaw? with
      | some e => .error e
      | none => .ok op

end Operation

end Montage
