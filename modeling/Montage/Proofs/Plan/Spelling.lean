import Montage.Proofs.Json.Rekeying
import Montage.Proofs.Plan.Canonical
import Montage.Proofs.Time.Text

/-!
# Spellings of a record

A record can be written plainly: fields under their own keys, a known type by its wire name, times
as numbers of seconds, names in quotes and without blanks at their ends. The plain record is read
as the same task, or both are refused, where no field is given under two of its keys. Records are
taken as texts spell them, with the members of every object in the order of their keys.

What has to be shown for a group of keys, a name or a time is that the reader takes the plain form
for what it took the written one for. The parameters are settled in place and in a fixed order, so
there both are followed key by key: of members in the order of their keys, settling is a change of
the values under some of them.
-/

namespace Montage
open TimeScale

/-! ## Types -/

namespace Kind

theorem ofName?_trim (s : String) : ofName? (Text.trim s) = ofName? s := by
  unfold ofName?
  rw [Text.trim_trim]

theorem ofName?_of_isBlankText {s : String} (h : Text.isBlankText s = true) : ofName? s = none := by
  rw [← ofName?_trim, Text.trim_of_isBlankText h]
  decide +kernel

end Kind

namespace Plan

/-- The wire name of a known type; any other name as it is. -/
def plainTypeName (s : String) : String :=
  match Kind.ofName? s with
  | some k => k.wireName
  | none => s

theorem plainTypeName_of_ofName? {s : String} {k : Kind} (h : Kind.ofName? s = some k) :
    plainTypeName s = k.wireName := by
  simp only [plainTypeName, h]

theorem plainTypeName_of_none {s : String} (h : Kind.ofName? s = none) : plainTypeName s = s := by
  simp only [plainTypeName, h]

theorem ofName?_plainTypeName (s : String) : Kind.ofName? (plainTypeName s) = Kind.ofName? s := by
  cases h : Kind.ofName? s with
  | none => rw [plainTypeName_of_none h, h]
  | some k => rw [plainTypeName_of_ofName? h, k.ofName?_wireName]

section
variable {T : Type}

def plainType : Json T → Json T
  | .text s => .text (plainTypeName s)
  | j => j

theorem plainType_ne_null {j : Json T} (h : j ≠ .null) : plainType j ≠ .null := by
  cases j with
  | null => exact absurd rfl h
  | _ => exact nofun

/-- The type that a value names, without the blanks around it. -/
def asTypeName? (j : Json T) : Option String := do
  let s ← j.asText?
  if Text.isBlankText s then none else some (Text.trim s)

theorem typeName?_eq (ms : Members T) : typeName? ms = (ms.firstOf? typeKeys).bind asTypeName? :=
  rfl

theorem asTypeName?_plainType (j : Json T) :
    asTypeName? (plainType j) = (asTypeName? j).map plainTypeName := by
  cases j with
  | text s =>
    simp only [asTypeName?, plainType, Json.asText?, Option.bind_eq_bind, Option.bind_some]
    cases hblank : Text.isBlankText s with
    | true => simp [plainTypeName_of_none (Kind.ofName?_of_isBlankText hblank), hblank]
    | false =>
      cases hkind : Kind.ofName? s with
      | none =>
        have htrim : plainTypeName (Text.trim s) = Text.trim s :=
          plainTypeName_of_none (by rw [Kind.ofName?_trim, hkind])
        simp [plainTypeName_of_none hkind, hblank, htrim]
      | some k =>
        have htrim : plainTypeName (Text.trim s) = k.wireName :=
          plainTypeName_of_ofName? (by rw [Kind.ofName?_trim, hkind])
        have hlabel := k.isLabel_wireName
        simp [plainTypeName_of_ofName? hkind, htrim, hlabel.isBlankText, hlabel.trim]
  | _ => rfl

theorem ofParts_plainTypeName [TimeScale T] (s : String) (params : Json T) :
    Operation.ofParts (plainTypeName s) params = Operation.ofParts s params := by
  unfold Operation.ofParts
  rw [ofName?_plainTypeName]
  cases h : Kind.ofName? s with
  | none => rw [plainTypeName_of_none h]
  | some k => rfl

end

/-! ## Names -/

section
variable {T : Type} [Spelled T]

/-- A name in quotes and without blanks at its ends. -/
def plainName : Json T → Json T
  | .number n => .text n.text
  | .text s => .text (Text.trim s)
  | j => j

def plainInputs : Json T → Json T
  | .list items => .list (items.map plainName)
  | j => j

theorem plainName_ne_null {j : Json T} (h : j ≠ .null) : plainName j ≠ .null := by
  cases j with
  | null => exact absurd rfl h
  | _ => exact nofun

theorem ordered_plainName {j : Json T} (h : j.Ordered) : (plainName j).Ordered := by
  cases j with
  | number n => exact .text n.text
  | text s => exact .text (Text.trim s)
  | _ => exact h

theorem eq_badInputs_of_readInputs {ms : Members T} {e : Refusal T}
    (h : readInputs ms = .error e) : e = .badInputs := by
  unfold readInputs at h
  split at h
  case h_4 =>
    split at h
    · cases h
    · exact (Except.error.inj h).symm
  case h_5 => exact (Except.error.inj h).symm
  all_goals cases h

variable (hspelled : ∀ x : T, Text.IsLabel (Spelled.json x))
include hspelled

theorem asName?_plainName (j : Json T) : asName? (plainName j) = asName? j := by
  cases j with
  | text s => simp only [plainName, asName?, Text.isBlankText_trim, Text.trim_trim]
  | number n =>
    have hlabel : Text.IsLabel n.text := isLabel_of_asName? hspelled (j := .number n) rfl
    exact asName?_text hlabel
  | _ => rfl

theorem mapM_asName?_plainName (items : List (Json T)) :
    (items.map plainName).mapM asName? = items.mapM asName? := by
  induction items with
  | nil => rfl
  | cons j items ih => simp only [List.map_cons, List.mapM_cons, asName?_plainName hspelled, ih]

theorem readInputs_congr {ms ms' : Members T}
    (h : ms'.get? "inputs" = (ms.get? "inputs").map plainInputs) :
    readInputs ms' = readInputs ms := by
  unfold readInputs
  rw [h]
  cases ms.get? "inputs" with
  | none => rfl
  | some j =>
    cases j with
    | list items => simp only [Option.map_some, plainInputs, mapM_asName?_plainName hspelled]
    | _ => rfl

end

/-! ## Times -/

section
variable {T : Type} [TimeScale T]

/-- A time that can be read as its number of seconds. -/
def plainTime (j : Json T) : Json T :=
  match Stamp.ofJson? j with
  | some t => .number (.real t)
  | none => j

theorem plainTime_plainTime (j : Json T) : plainTime (plainTime j) = plainTime j := by
  cases h : Stamp.ofJson? j with
  | none => simp only [plainTime, h]
  | some t => simp only [plainTime, h, Stamp.ofJson?_real h]

theorem get?_settleTime (ms : Members T) (key k : String) :
    (settleTime ms key).get? k = if k = key then (ms.get? k).map plainTime else ms.get? k := by
  unfold settleTime
  split_ifs with hk
  · subst hk
    cases hget : ms.get? k with
    | none => simp [hget]
    | some j =>
      cases htime : Stamp.ofJson? j with
      | none => simp [hget, htime, plainTime]
      | some t => simp [htime, plainTime, Members.get?_put_self]
  · split
    · exact Members.get?_put_of_ne hk _ ms
    · rfl

theorem get?_foldl_settleTime (keys : List String) (ms : Members T) (k : String) :
    (keys.foldl settleTime ms).get? k =
      if k ∈ keys then (ms.get? k).map plainTime else ms.get? k := by
  induction keys generalizing ms with
  | nil => rfl
  | cons key keys ih =>
    rw [List.foldl_cons, ih, get?_settleTime]
    by_cases hk : k = key
    · -- A key that comes twice is settled twice.
      have htwice : ((ms.get? k).map plainTime).map plainTime = (ms.get? k).map plainTime := by
        rw [Option.map_map]
        exact Option.map_congr fun j _ => plainTime_plainTime j
      rw [if_pos hk, htwice, ite_self, if_pos (List.mem_cons.mpr (Or.inl hk))]
    · simp only [List.mem_cons, hk, false_or, ↓reduceIte]

/-- Times as numbers of seconds. -/
def plainTimes (ms : Members T) : Members T := ms.mapAt timeKeys plainTime

theorem settleTimes_eq_plainTimes {ms : Members T} (h : (Json.object ms).Ordered) :
    settleTimes ms = plainTimes ms := by
  refine (ordered_settleTimes h).keys.ext (h.keys.mapAt timeKeys plainTime) fun k => ?_
  rw [settleTimes_eq, get?_foldl_settleTime, plainTimes, Members.get?_mapAt]

def plainCue : Json T → Json T
  | .object ms => .object (plainTimes ms)
  | j => j

def plainCues : Json T → Json T
  | .list cues => .list (cues.map plainCue)
  | j => j

theorem settleCue_eq_plainCue {j : Json T} (h : j.Ordered) : settleCue j = plainCue j := by
  cases j with
  | object ms => exact congrArg Json.object (settleTimes_eq_plainTimes h)
  | _ => rfl

theorem get?_settleCues {ms : Members T} (h : (Json.object ms).Ordered) (k : String) :
    (settleCues ms).get? k = if k ∈ ["segments"] then (ms.get? k).map plainCues else ms.get? k := by
  obtain ⟨heq, hnone⟩ | ⟨cues, hcues, heq⟩ := settleCues_cases ms
  · rw [heq]
    split_ifs with hk
    · obtain rfl := List.mem_singleton.mp hk
      cases hget : ms.get? "segments" with
      | none => rfl
      | some j =>
        cases j with
        | list cues => exact absurd hget (hnone cues)
        | _ => rfl
    · rfl
  · have hplain : cues.map settleCue = cues.map plainCue :=
      List.map_congr_left fun j hj => settleCue_eq_plainCue ((h.of_get? hcues).of_mem_list j hj)
    rw [heq, hplain]
    split_ifs with hk
    · obtain rfl := List.mem_singleton.mp hk
      rw [Members.get?_put_self, hcues]
      rfl
    · exact Members.get?_put_of_ne (by simpa using hk) _ ms

/-- With the times of parameters and of their cues as numbers of seconds. -/
def plainClocks (ms : Members T) : Members T := (plainTimes ms).mapAt ["segments"] plainCues

theorem ordered_settle {ms : Members T} (h : (Json.object ms).Ordered) :
    (Json.object (settleCues (settleTimes ms))).Ordered :=
  ordered_settleCues (ordered_settleTimes h)

/-- Of members in the order of their keys, settling changes the values under some keys. -/
theorem settle_eq_plainClocks {ms : Members T} (h : (Json.object ms).Ordered) :
    settleCues (settleTimes ms) = plainClocks ms := by
  have hplain : Members.Ascending (plainClocks ms) :=
    (h.keys.mapAt timeKeys plainTime).mapAt ["segments"] plainCues
  refine (ordered_settle h).keys.ext hplain fun k => ?_
  rw [get?_settleCues (ordered_settleTimes h), settleTimes_eq_plainTimes h, plainClocks,
    Members.get?_mapAt]

theorem ordered_plainClocks {ms : Members T} (h : (Json.object ms).Ordered) :
    (Json.object (plainClocks ms)).Ordered := by
  rw [← settle_eq_plainClocks h]
  exact ordered_settle h

end

/-! ## Parameters -/

section
variable {T : Type} [Spelled T]

/-- The clip that an overlay names, under any of the keys. -/
def clipName? (ms : Members T) : Option String :=
  clipKeys.findSome? fun k => (ms.get? k).bind asName?

theorem clipName?_congr {ms ms' : Members T} (h : ∀ k ∈ clipKeys, ms'.get? k = ms.get? k) :
    clipName? ms' = clipName? ms := by
  unfold clipName? clipKeys
  simp only [List.findSome?_cons, List.findSome?_nil, h "clip" (by decide),
    h "stock_id" (by decide), h "clip_id" (by decide)]

theorem clipName?_eq {ms : Members T} (h : ms.Once clipKeys) :
    clipName? ms = (ms.firstOf? clipKeys).bind asName? :=
  h.findSome?_bind rfl

/-- The parameters of an overlay apart from its clip. -/
def clipless (ms : Members T) : Members T := clipKeys.foldl (fun ms k => ms.remove k) ms

omit [Spelled T] in
theorem get?_clipless (ms : Members T) (k : String) :
    (clipless ms).get? k = if k ∈ clipKeys then none else ms.get? k := by
  simp only [clipless, clipKeys, List.foldl_cons, List.foldl_nil, Members.get?_remove,
    List.mem_cons, List.not_mem_nil, or_false]
  split_ifs <;> simp_all

theorem get?_settleClip (ms : Members T) (k : String) : (settleClip ms).get? k =
    if k = "clip" then (clipName? ms).map .text else if k ∈ clipKeys then none else ms.get? k := by
  rw [← get?_clipless]
  cases hclip : clipName? ms with
  | none =>
    have hsettle : settleClip ms = clipless ms := by
      unfold clipName? at hclip
      simp only [settleClip, clipless, hclip]
    rw [hsettle]
    split_ifs with hk
    · rw [get?_clipless, if_pos (hk ▸ by decide)]
      rfl
    · rfl
  | some clip =>
    have hsettle : settleClip ms = (clipless ms).put "clip" (.text clip) := by
      unfold clipName? at hclip
      simp only [settleClip, clipless, hclip]
    rw [hsettle]
    split_ifs with hk
    · rw [hk, Members.get?_put_self]
      rfl
    · exact Members.get?_put_of_ne hk _ _

variable (hspelled : ∀ x : T, Text.IsLabel (Spelled.json x))
include hspelled

/-- A clip is known by its plain name. -/
theorem clipName?_respell {ms : Members T} (h : ms.Ascending) (honce : ms.Once clipKeys) :
    clipName? (ms.respell "clip" clipKeys plainName) = clipName? ms := by
  have hkey : "clip" ∈ clipKeys := by decide
  rw [clipName?_eq (Members.once_respell h honce hkey), clipName?_eq honce,
    Members.firstOf?_respell h honce hkey fun _ => plainName_ne_null, Option.bind_map]
  exact Option.bind_congr fun j _ => asName?_plainName hspelled j

end

section
variable {T : Type} [TimeScale T] [Spelled T]

/-- The parameters of a record of this kind, settled. -/
def settleAs (kind? : Option Kind) (params : Members T) : Members T :=
  settleCues (settleTimes (if kind? = some .overlayVideo then settleClip params else params))

theorem settleParams_eq (typeName : String) (ms : Members T) : settleParams typeName ms =
    settleAs (Kind.ofName? typeName) (match ms.firstOf? paramsKeys with
      | some (.object params) => params
      | _ => []) := rfl

/-- Parameters with plain times, and the clip of an overlay under its own key. -/
def plainAs (kind? : Option Kind) (params : Members T) : Members T :=
  plainClocks (if kind? = some .overlayVideo then params.respell "clip" clipKeys plainName
    else params)

def plainParams (kind? : Option Kind) : Json T → Json T
  | .object params => .object (plainAs kind? params)
  | j => j

theorem plainParams_ne_null {kind? : Option Kind} {j : Json T} (h : j ≠ .null) :
    plainParams kind? j ≠ .null := by
  cases j with
  | null => exact absurd rfl h
  | _ => exact nofun

variable (hspelled : ∀ x : T, Text.IsLabel (Spelled.json x))
include hspelled

/-- A clip is settled apart from times and cues. -/
theorem settleClip_plainClocks_respell {ms : Members T} (h : (Json.object ms).Ordered)
    (honce : ms.Once clipKeys) :
    settleClip (plainClocks (ms.respell "clip" clipKeys plainName)) =
      plainClocks (settleClip ms) := by
  have hkey : "clip" ∈ clipKeys := by decide
  have hapart : ∀ k ∈ clipKeys, k ∉ timeKeys ∧ k ∉ ["segments"] := by decide
  have hrespell := h.respell honce hkey fun _ => ordered_plainName
  have hclip (k : String) (hk : k ∈ clipKeys) (ps : Members T) :
      (plainClocks ps).get? k = ps.get? k := by
    rw [plainClocks, plainTimes, Members.get?_mapAt_of_not_mem (hapart k hk).2,
      Members.get?_mapAt_of_not_mem (hapart k hk).1]
  have hplain := ordered_settleClip (ordered_plainClocks hrespell)
  have hsettled := ordered_plainClocks (ordered_settleClip h)
  refine hplain.keys.ext hsettled.keys fun k => ?_
  rw [get?_settleClip]
  by_cases hk : k ∈ clipKeys
  · have hname : clipName? (plainClocks (ms.respell "clip" clipKeys plainName)) = clipName? ms := by
      rw [clipName?_congr fun k hk => hclip k hk _, clipName?_respell hspelled h.keys honce]
    rw [hname, if_pos hk, hclip k hk, get?_settleClip, if_pos hk]
  · have hne : k ≠ "clip" := fun heq => hk (heq ▸ hkey)
    simp only [if_neg hne, if_neg hk, plainClocks, plainTimes, Members.get?_mapAt, get?_settleClip,
      Members.get?_respell_of_not_mem h.keys honce hkey hk]

/-- Settling comes to the same, whichever way the parameters are spelled. -/
theorem settleAs_plainAs {kind? : Option Kind} {params : Members T}
    (h : (Json.object params).Ordered)
    (honce : kind? = some .overlayVideo → params.Once clipKeys) :
    settleAs kind? (plainAs kind? params) = settleAs kind? params := by
  unfold settleAs plainAs
  split_ifs with hoverlay
  · rw [settleClip_plainClocks_respell hspelled h (honce hoverlay),
      ← settle_eq_plainClocks (ordered_settleClip h), settle_settle]
  · rw [← settle_eq_plainClocks h, settle_settle]

theorem settleParams_congr {typeName : String} {ms ms' : Members T}
    (h : (Json.object ms).Ordered)
    (hparams : ms'.firstOf? paramsKeys =
      (ms.firstOf? paramsKeys).map (plainParams (Kind.ofName? typeName)))
    (honce : Kind.ofName? typeName = some .overlayVideo →
      ∀ params : Members T, ms.firstOf? paramsKeys = some (.object params) → params.Once clipKeys) :
    settleParams typeName ms' = settleParams typeName ms := by
  rw [settleParams_eq, settleParams_eq, hparams]
  cases hfirst : ms.firstOf? paramsKeys with
  | none => rfl
  | some j =>
    cases j with
    | object params =>
      obtain ⟨key, -, hget, -⟩ := Members.exists_of_firstOf? hfirst
      exact settleAs_plainAs hspelled (h.of_get? hget) fun hoverlay => honce hoverlay params hfirst
    | _ => rfl

end

/-! ## Records -/

section
variable {T : Type}

/-- The kind of operation that a record asks for, if it is known. -/
def kindOf? (ms : Members T) : Option Kind := (typeName? ms).bind Kind.ofName?

/-- No field is given under two of its keys, and no clip of an overlay. -/
structure SpelledOnce (ms : Members T) : Prop where
  type : ms.Once typeKeys
  output : ms.Once outputKeys
  params : ms.Once paramsKeys
  clip : kindOf? ms = some .overlayVideo →
    ∀ params : Members T, ms.firstOf? paramsKeys = some (.object params) → params.Once clipKeys

variable [TimeScale T] [Spelled T]

def plainMembers (ms : Members T) : Members T :=
  (((ms.respell "type" typeKeys plainType).respell "output_id" outputKeys plainName).respell
    "params" paramsKeys (plainParams (kindOf? ms))).mapAt ["inputs"] plainInputs

/-- The record in its plain spelling. -/
def plainRecord : Json T → Json T
  | .object ms => .object (plainMembers ms)
  | j => j

/-- The same reason, where a known type goes by its wire name. -/
def Refusal.plain : Refusal T → Refusal T
  | .badParams typeName flaw => .badParams (plainTypeName typeName) flaw
  | e => e

/-- What the reader looks for in a record is in `ms'` the plain form of what it is in `ms`. -/
structure Respells (ms' ms : Members T) : Prop where
  type : ms'.firstOf? typeKeys = (ms.firstOf? typeKeys).map plainType
  output : ms'.firstOf? outputKeys = (ms.firstOf? outputKeys).map plainName
  params : ms'.firstOf? paramsKeys = (ms.firstOf? paramsKeys).map (plainParams (kindOf? ms))
  inputs : ms'.get? "inputs" = (ms.get? "inputs").map plainInputs

theorem SpelledOnce.respells {ms : Members T} (honce : SpelledOnce ms) (h : ms.Ascending) :
    Respells (plainMembers ms) ms := by
  have htypes : "type" ∈ typeKeys := by decide
  have houtputs : "output_id" ∈ outputKeys := by decide
  have hparams : "params" ∈ paramsKeys := by decide
  -- Each group of keys is respelled in turn, and is apart from the others.
  let ms₁ := ms.respell "type" typeKeys plainType
  have h₁ : ms₁.Ascending := Members.ascending_respell _ _ _ _
  have honce₁ : ms₁.Once outputKeys :=
    honce.output.respell_of_disjoint h honce.type htypes (by decide)
  let ms₂ := ms₁.respell "output_id" outputKeys plainName
  have h₂ : ms₂.Ascending := Members.ascending_respell _ _ _ _
  have honce₂ : ms₂.Once paramsKeys :=
    (honce.params.respell_of_disjoint h honce.type htypes (by decide)).respell_of_disjoint h₁ honce₁
      houtputs (by decide)
  let ms₃ := ms₂.respell "params" paramsKeys (plainParams (kindOf? ms))
  have hinputs {keys : List String} (hkeys : "inputs" ∉ keys) :
      (plainMembers ms).firstOf? keys = ms₃.firstOf? keys := by
    refine Members.firstOf?_congr fun k hk => Members.get?_mapAt_of_not_mem fun hmem => hkeys ?_
    rwa [← List.mem_singleton.mp hmem]
  constructor
  case type =>
    rw [hinputs (by decide), Members.firstOf?_respell_of_disjoint h₂ honce₂ hparams (by decide),
      Members.firstOf?_respell_of_disjoint h₁ honce₁ houtputs (by decide),
      Members.firstOf?_respell h honce.type htypes fun _ => plainType_ne_null]
  case output =>
    rw [hinputs (by decide), Members.firstOf?_respell_of_disjoint h₂ honce₂ hparams (by decide),
      Members.firstOf?_respell h₁ honce₁ houtputs fun _ => plainName_ne_null,
      Members.firstOf?_respell_of_disjoint h honce.type htypes (by decide)]
  case params =>
    rw [hinputs (by decide),
      Members.firstOf?_respell h₂ honce₂ hparams fun _ => plainParams_ne_null,
      Members.firstOf?_respell_of_disjoint h₁ honce₁ houtputs (by decide),
      Members.firstOf?_respell_of_disjoint h honce.type htypes (by decide)]
  case inputs =>
    rw [plainMembers, Members.get?_mapAt, if_pos List.mem_cons_self,
      Members.get?_respell_of_not_mem h₂ honce₂ hparams (by decide),
      Members.get?_respell_of_not_mem h₁ honce₁ houtputs (by decide),
      Members.get?_respell_of_not_mem h honce.type htypes (by decide)]

namespace Respells
variable {ms ms' : Members T}

theorem typeName?_eq (h : Respells ms' ms) : typeName? ms' = (typeName? ms).map plainTypeName := by
  rw [Plan.typeName?_eq, Plan.typeName?_eq, h.type, Option.bind_map, Option.map_bind]
  exact Option.bind_congr fun j _ => asTypeName?_plainType j

variable (hspelled : ∀ x : T, Text.IsLabel (Spelled.json x))
include hspelled

theorem output_eq (h : Respells ms' ms) :
    (ms'.firstOf? outputKeys).bind asName? = (ms.firstOf? outputKeys).bind asName? := by
  rw [h.output, Option.bind_map]
  exact Option.bind_congr fun j _ => asName?_plainName hspelled j

/-- A record and its plain form are read as the same task, or both are refused. -/
theorem readRecord_eq (h : Respells ms' ms) (hordered : (Json.object ms).Ordered)
    (honce : SpelledOnce ms) :
    readRecord (.object ms') = (readRecord (.object ms)).mapError Refusal.plain := by
  have hinputs := readInputs_congr hspelled h.inputs
  have houtput := h.output_eq hspelled
  cases htype : typeName? ms with
  | none =>
    simp [readRecord, h.typeName?_eq, htype, Except.mapError, Refusal.plain]
  | some typeName =>
    have hkind : kindOf? ms = Kind.ofName? typeName := by simp [kindOf?, htype]
    have hparams : settleParams (plainTypeName typeName) ms' = settleParams typeName ms := by
      rw [settleParams_eq, ofName?_plainTypeName, ← settleParams_eq]
      exact settleParams_congr hspelled hordered (hkind ▸ h.params) (hkind ▸ honce.clip)
    simp only [readRecord, h.typeName?_eq, htype, Option.map_some, hinputs, hparams,
      ofParts_plainTypeName, houtput]
    cases hread : readInputs ms with
    | error e =>
      obtain rfl := eq_badInputs_of_readInputs hread
      rfl
    | ok inputs =>
      cases Operation.ofParts typeName (.object (settleParams typeName ms)) with
      | error flaw => rfl
      | ok op => rfl

end Respells

end

/-- A record in which no field stands under two of its keys is read as the same task when it is
spelled plainly, or both are refused, for the same reason. -/
theorem readRecord_plainRecord (j : Json Float) (hordered : j.Ordered)
    (honce : ∀ ms, j = .object ms → SpelledOnce ms) :
    (∃ t, readRecord j = .ok t ∧ readRecord (plainRecord j) = .ok t) ∨
      ∃ e, readRecord j = .error e ∧ readRecord (plainRecord j) = .error e.plain := by
  have hplain : readRecord (plainRecord j) = (readRecord j).mapError Refusal.plain := by
    cases j with
    | object ms =>
      have honce := honce ms rfl
      exact (honce.respells hordered.keys).readRecord_eq Binary.isLabel_json hordered honce
    | _ => rfl
  rw [hplain]
  cases readRecord j with
  | ok t => exact Or.inl ⟨t, rfl, rfl⟩
  | error e => exact Or.inr ⟨e, rfl, rfl⟩

/-- A record that fetches a picture, with its fields under keys of second choice. -/
def pictureRecord : Members Float :=
  [("action", .text " Fetch-External-Image "), ("config", .object [("query", .text "sea")]),
    ("id", .number (.int 7)), ("inputs", .list [.number (.int 1), .text " a "]), ("type", .null)]

theorem readRecord_plainRecord_pictureRecord :
    readRecord (plainRecord (.object pictureRecord)) =
      .ok ⟨.fetchImage ⟨"sea", [], "landscape"⟩, some "7", ["1", "a"]⟩ := by
  have hordered : (Json.object pictureRecord).Ordered :=
    Json.ordered_ordered (.object pictureRecord)
  have honce : SpelledOnce pictureRecord := by
    refine ⟨by decide +kernel, by decide +kernel, by decide +kernel, fun hoverlay => ?_⟩
    have hkind : kindOf? pictureRecord = some .fetchImage := by decide +kernel
    rw [hkind] at hoverlay
    cases hoverlay
  have hread : readRecord (.object pictureRecord) =
      .ok ⟨.fetchImage ⟨"sea", [], "landscape"⟩, some "7", ["1", "a"]⟩ := rfl
  have hcases := readRecord_plainRecord (.object pictureRecord) hordered fun ms hms =>
    Json.object.inj hms ▸ honce
  obtain ⟨t, ht, hplain⟩ | ⟨e, he, -⟩ := hcases
  · obtain rfl := Except.ok.inj (hread.symm.trans ht)
    exact hplain
  · cases hread.symm.trans he

example : plainMembers pictureRecord = [("inputs", .list [.text "1", .text "a"]),
    ("output_id", .text "7"), ("params", .object [("query", .text "sea")]),
    ("type", .text "fetch_stock_image")] := by
  rfl

end Plan

end Montage
