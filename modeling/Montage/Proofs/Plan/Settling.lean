import Montage.Plan.Document
import Montage.Proofs.Json.Ordered
import Montage.Proofs.Lists
import Montage.Proofs.Text.Blank
import Montage.Proofs.Time.Stamp
import Montage.Proofs.Time.Tenth

/-!
# Settled parameters

Settling the parameters of a record once is enough. A time that was settled is a number of seconds
and stays one while other members are put in, and a time that cannot be read is left as it is; the
clip of an overlay is a name without blanks at its ends, under one key. Parameters that are written
by this program are settled from the start. Members whose keys ascend go on doing so.
-/

namespace Montage
open TimeScale

namespace Stamp
variable {T : Type} [TimeScale T]

theorem ofJson?_real {j : Json T} {t : T} (h : ofJson? j = some t) :
    ofJson? (.number (.real t)) = some t := by
  have hfit := fits_of_ofJson? h
  simp only [ofJson?, Number.toReal, Option.bind_eq_bind, Option.bind_some, hfit, ↓reduceIte]

end Stamp

/-! ## Written members -/

namespace Members
variable {T : Type} {P : String × Json T → Prop} {key : String}

theorem all_member {j : Json T} : All P (member key j) ↔ P (key, j) := List.forall_mem_singleton

theorem all_memberIf {j? : Option (Json T)} :
    All P (memberIf key j?) ↔ ∀ j, j? = some j → P (key, j) := by
  cases j? <;> simp [All, memberIf]

theorem all_memberTexts {ss : List String} :
    All P (memberTexts key ss) ↔ (ss ≠ [] → P (key, Json.texts ss)) := by
  cases ss <;> simp [All, memberTexts]

end Members

namespace Plan

/-! ## Times -/

section
variable {T : Type} [TimeScale T]

/-- With the time under one key settled. -/
def settleTime (ms : Members T) (key : String) : Members T :=
  match (ms.get? key).bind Stamp.ofJson? with
  | some t => ms.put key (.number (.real t))
  | none => ms

theorem settleTimes_eq (ms : Members T) : settleTimes ms = timeKeys.foldl settleTime ms := rfl

/-- There is nothing to settle under the key. -/
def TimeSettled (key : String) (ms : Members T) : Prop := settleTime ms key = ms

theorem timeSettled_iff {key : String} {ms : Members T} : TimeSettled key ms ↔
    ∀ t, (ms.get? key).bind Stamp.ofJson? = some t → ms.put key (.number (.real t)) = ms := by
  unfold TimeSettled settleTime
  cases (ms.get? key).bind Stamp.ofJson? with
  | none => simp
  | some t => simp

theorem timeSettled_settleTime (key : String) (ms : Members T) :
    TimeSettled key (settleTime ms key) := by
  rw [timeSettled_iff]
  unfold settleTime
  cases htime : (ms.get? key).bind Stamp.ofJson? with
  | none =>
    intro t ht
    rw [htime] at ht
    cases ht
  | some t =>
    obtain ⟨j, -, hj⟩ := Option.bind_eq_some_iff.mp htime
    intro s hs
    rw [Members.get?_put_self, Option.bind_some, Stamp.ofJson?_real hj] at hs
    obtain rfl := Option.some.inj hs
    exact Members.put_put_self key _ ms

theorem TimeSettled.put {key other : String} {ms : Members T} (h : TimeSettled key ms)
    (hne : other ≠ key) (v : Json T) : TimeSettled key (ms.put other v) := by
  rw [timeSettled_iff] at h ⊢
  intro t ht
  rw [Members.get?_put_of_ne hne.symm] at ht
  exact Members.put_put_of_put_eq hne (h t ht)

theorem TimeSettled.settleTime {key : String} {ms : Members T} (h : TimeSettled key ms)
    (other : String) : TimeSettled key (settleTime ms other) := by
  by_cases hne : other = key
  · subst hne
    exact timeSettled_settleTime other ms
  · unfold Plan.settleTime
    split
    · exact h.put hne _
    · exact h

theorem TimeSettled.foldl {key : String} {ms : Members T} (h : TimeSettled key ms)
    (keys : List String) : TimeSettled key (keys.foldl Plan.settleTime ms) := by
  induction keys generalizing ms with
  | nil => exact h
  | cons other keys ih => exact ih (h.settleTime other)

theorem timeSettled_foldl {key : String} {keys : List String} (hkey : key ∈ keys) (ms : Members T) :
    TimeSettled key (keys.foldl settleTime ms) := by
  induction keys generalizing ms with
  | nil => exact absurd hkey List.not_mem_nil
  | cons other keys ih =>
    rw [List.foldl_cons]
    obtain rfl | hkey := List.mem_cons.mp hkey
    · exact (timeSettled_settleTime key ms).foldl keys
    · exact ih hkey (settleTime ms other)

theorem timeSettled_settleTimes {key : String} (hkey : key ∈ timeKeys) (ms : Members T) :
    TimeSettled key (settleTimes ms) := timeSettled_foldl hkey ms

theorem settleTimes_of_settled {ms : Members T} (h : ∀ key ∈ timeKeys, TimeSettled key ms) :
    settleTimes ms = ms := by
  rw [settleTimes_eq]
  generalize timeKeys = keys at h
  induction keys with
  | nil => rfl
  | cons key keys ih =>
    rw [List.foldl_cons, show settleTime ms key = ms from h key List.mem_cons_self]
    exact ih fun other hother => h other (List.mem_cons_of_mem key hother)

theorem settleTimes_settleTimes (ms : Members T) : settleTimes (settleTimes ms) = settleTimes ms :=
  settleTimes_of_settled fun _ hkey => timeSettled_settleTimes hkey ms

theorem mem_settleTimes {ms : Members T} {m : String × Json T} (h : m ∈ settleTimes ms) :
    m ∈ ms ∨ m.1 ∈ timeKeys := by
  rw [settleTimes_eq] at h
  generalize timeKeys = keys at h ⊢
  induction keys generalizing ms with
  | nil => exact Or.inl h
  | cons key keys ih =>
    obtain h | h := ih h
    · unfold settleTime at h
      split at h
      · obtain rfl | h := Members.mem_put h
        · exact Or.inr List.mem_cons_self
        · exact Or.inl h
      · exact Or.inl h
    · exact Or.inr (List.mem_cons_of_mem key h)

/-! ## Cues -/

/-- A cue of subtitles with its times settled. -/
def settleCue : Json T → Json T
  | .object ms => .object (settleTimes ms)
  | j => j

theorem settleCue_settleCue (j : Json T) : settleCue (settleCue j) = settleCue j := by
  cases j with
  | object ms => exact congrArg Json.object (settleTimes_settleTimes ms)
  | _ => rfl

/-- Parameters without cues, and those whose cues are settled in place. -/
theorem settleCues_cases (ms : Members T) :
    (settleCues ms = ms ∧ ∀ cues, ms.get? "segments" ≠ some (.list cues)) ∨
      ∃ cues, ms.get? "segments" = some (.list cues) ∧
        settleCues ms = ms.put "segments" (.list (cues.map settleCue)) := by
  unfold settleCues
  split
  · next cues hcues => exact Or.inr ⟨cues, hcues, rfl⟩
  · next hnone => exact Or.inl ⟨rfl, hnone⟩

theorem TimeSettled.settleCues {key : String} {ms : Members T} (h : TimeSettled key ms)
    (hne : "segments" ≠ key) : TimeSettled key (settleCues ms) := by
  obtain ⟨heq, -⟩ | ⟨cues, -, heq⟩ := settleCues_cases ms
  · rwa [heq]
  · rw [heq]
    exact h.put hne _

theorem settleCues_settleCues (ms : Members T) : settleCues (settleCues ms) = settleCues ms := by
  obtain ⟨heq, -⟩ | ⟨cues, -, heq⟩ := settleCues_cases ms
  · rw [heq, heq]
  · have hget : (settleCues ms).get? "segments" = some (.list (cues.map settleCue)) := by
      rw [heq, Members.get?_put_self]
    obtain ⟨hsame, -⟩ | ⟨cues', hcues', hsame⟩ := settleCues_cases (settleCues ms)
    · exact hsame
    · rw [hget] at hcues'
      obtain rfl : cues.map settleCue = cues' := by simpa using hcues'
      have hmap : (cues.map settleCue).map settleCue = cues.map settleCue := by
        rw [List.map_map]
        exact List.map_congr_left fun cue _ => settleCue_settleCue cue
      rw [hsame, hmap, heq, Members.put_put_self]

theorem mem_settleCues {ms : Members T} {m : String × Json T} (h : m ∈ settleCues ms) :
    m ∈ ms ∨ m.1 = "segments" := by
  obtain ⟨heq, -⟩ | ⟨cues, -, heq⟩ := settleCues_cases ms
  · exact Or.inl (heq ▸ h)
  · rw [heq] at h
    obtain rfl | h := Members.mem_put h
    · exact Or.inr rfl
    · exact Or.inl h

/-- With times and cues settled there is nothing left to settle. -/
theorem settle_settle (ms : Members T) :
    settleCues (settleTimes (settleCues (settleTimes ms))) = settleCues (settleTimes ms) := by
  have htimes : settleTimes (settleCues (settleTimes ms)) = settleCues (settleTimes ms) := by
    apply settleTimes_of_settled
    intro key hkey
    apply (timeSettled_settleTimes hkey ms).settleCues
    rintro rfl
    exact absurd hkey (by decide)
  rw [htimes, settleCues_settleCues]

end

/-! ## Settled members -/

section
variable {T : Type}

/-- A member without cues, whose time is a number of seconds if it holds one. -/
def IsSettled (m : String × Json T) : Prop :=
  m.1 ≠ "segments" ∧ (m.1 ∈ timeKeys → ∃ t, m.2 = .number (.real t))

variable [TimeScale T]

theorem settleTimes_ofList {ms : List (String × Json T)}
    (h : ∀ m ∈ ms, m.1 ∈ timeKeys → ∃ t, m.2 = .number (.real t)) :
    settleTimes (Members.ofList ms) = Members.ofList ms := by
  apply settleTimes_of_settled
  intro key hkey
  rw [timeSettled_iff]
  intro t ht
  obtain ⟨j, hget, hj⟩ := Option.bind_eq_some_iff.mp ht
  obtain ⟨front, back, hmem, -⟩ := List.lookup_eq_some_iff.mp hget
  have hmember : (key, j) ∈ ms := Members.mem_ofList (by simp [hmem])
  obtain ⟨s, rfl⟩ : ∃ s, j = .number (.real s) := h (key, j) hmember hkey
  have heq : s = t := by
    simp only [Stamp.ofJson?, Number.toReal, Option.bind_eq_bind, Option.bind_some] at hj
    split_ifs at hj
    exact Option.some.inj hj
  exact heq ▸ (Members.ascending_ofList ms).put_of_get? hget

theorem settle_ofList {ms : List (String × Json T)} (h : Members.All IsSettled ms) :
    settleCues (settleTimes (Members.ofList ms)) = Members.ofList ms := by
  rw [settleTimes_ofList fun m hm => (h m hm).2]
  obtain ⟨heq, -⟩ | ⟨cues, hcues, -⟩ := settleCues_cases (Members.ofList ms)
  · exact heq
  · obtain ⟨front, back, hmem, -⟩ := List.lookup_eq_some_iff.mp hcues
    have hmember : ("segments", .list cues) ∈ ms := Members.mem_ofList (by simp [hmem])
    exact absurd rfl (h _ hmember).1

end

/-! ## Names -/

section
variable {T : Type} [Spelled T]

theorem asName?_text {s : String} (h : Text.IsLabel s) : asName? (.text s : Json T) = some s := by
  simp [asName?, h.isBlankText, h.trim]

/-- A clip that stands under its own name alone is left there. -/
theorem settleClip_of_get? {ms : Members T} (hms : Members.Ascending ms) {clip : String}
    (hclip : Text.IsLabel clip) (hget : ms.get? "clip" = some (.text clip))
    (hother : ∀ m ∈ ms, m.1 ≠ "stock_id" ∧ m.1 ≠ "clip_id") : settleClip ms = ms := by
  have hname : (clipKeys.findSome? fun k => (ms.get? k).bind asName?) = some clip := by
    simp [clipKeys, hget, asName?_text hclip]
  have hrest : clipKeys.foldl (fun ms k => ms.remove k) ms = ms.remove "clip" := by
    have hstock : (ms.remove "clip").remove "stock_id" = ms.remove "clip" :=
      List.filter_eq_self.mpr fun m hm => by simpa using (hother m (List.mem_filter.mp hm).1).1
    have hid : (ms.remove "clip").remove "clip_id" = ms.remove "clip" :=
      List.filter_eq_self.mpr fun m hm => by simpa using (hother m (List.mem_filter.mp hm).1).2
    simp only [clipKeys, List.foldl_cons, List.foldl_nil, hstock, hid]
  simp only [settleClip, hname, hrest]
  exact hms.put_remove hget

variable (hspelled : ∀ x : T, Text.IsLabel (Spelled.json x))
include hspelled

/-- A name is a text without blanks at its ends, also where it is a number without quotes. -/
theorem isLabel_of_asName? {j : Json T} {s : String} (h : asName? j = some s) : Text.IsLabel s := by
  cases j with
  | text s' =>
    rw [asName?] at h
    split_ifs at h with hblank
    obtain rfl := Option.some.inj h
    exact .of_trim (by simpa using hblank)
  | number n =>
    obtain rfl := Option.some.inj h
    cases n with
    | int i => exact Text.isLabel_intText i
    | real x => exact hspelled x
  | _ => cases h

theorem mem_settleClip {ms : Members T} {m : String × Json T} (h : m ∈ settleClip ms)
    (hkey : m.1 = "clip") : ∃ s, m.2 = .text s ∧ Text.IsLabel s := by
  have hrest : m ∉ clipKeys.foldl (fun ms k => ms.remove k) ms := by
    simp [clipKeys, Members.remove, hkey]
  dsimp only [settleClip] at h
  split at h
  · next clip hclip =>
    obtain rfl | h := Members.mem_put h
    · obtain ⟨k, -, hk⟩ := List.exists_of_findSome?_eq_some hclip
      obtain ⟨j, -, hj⟩ := Option.bind_eq_some_iff.mp hk
      exact ⟨clip, rfl, isLabel_of_asName? hspelled hj⟩
    · exact absurd h hrest
  · exact absurd h hrest

end

/-! ## Order of members -/

section
variable {T : Type}

theorem ordered_settleClip [Spelled T] {ms : Members T} (h : (Json.object ms).Ordered) :
    (Json.object (settleClip ms)).Ordered := by
  have hrest : (Json.object (clipKeys.foldl (fun ms k => Members.remove k ms) ms)).Ordered :=
    ((h.remove _).remove _).remove _
  dsimp only [settleClip]
  split
  · exact hrest.put "clip" (.text _)
  · exact hrest

variable [TimeScale T]

theorem ordered_settleTimes {ms : Members T} (h : (Json.object ms).Ordered) :
    (Json.object (settleTimes ms)).Ordered := by
  rw [settleTimes_eq]
  generalize timeKeys = keys
  induction keys generalizing ms with
  | nil => exact h
  | cons key keys ih =>
    apply ih
    unfold settleTime
    split
    · exact h.put key (.number _)
    · exact h

theorem ordered_settleCue {j : Json T} (h : j.Ordered) : (settleCue j).Ordered := by
  cases j with
  | object ms => exact ordered_settleTimes h
  | _ => exact h

theorem ordered_settleCues {ms : Members T} (h : (Json.object ms).Ordered) :
    (Json.object (settleCues ms)).Ordered := by
  obtain ⟨heq, -⟩ | ⟨cues, hcues, heq⟩ := settleCues_cases ms
  · rwa [heq]
  · rw [heq]
    refine h.put "segments" (.list (List.forall_mem_map.mpr fun j hj => ?_))
    exact ordered_settleCue ((h.of_get? hcues).of_mem_list j hj)

variable [Spelled T]

theorem ordered_settleParams (typeName : String) {ms : Members T}
    (h : (Json.object ms).Ordered) : (Json.object (settleParams typeName ms)).Ordered := by
  have hsome (params : Members T) (hparams : ms.firstOf? paramsKeys = some (.object params)) :
      (Json.object params).Ordered := by
    obtain ⟨key, -, hkey, -⟩ := Members.exists_of_firstOf? hparams
    exact h.of_get? hkey
  have hnone : (Json.object ([] : Members T)).Ordered :=
    .object List.Pairwise.nil (List.forall_mem_nil _)
  unfold settleParams
  apply ordered_settleCues
  apply ordered_settleTimes
  split
  · apply ordered_settleClip
    split
    · next params hparams => exact hsome params hparams
    · exact hnone
  · split
    · next params hparams => exact hsome params hparams
    · exact hnone

end

end Plan

end Montage
