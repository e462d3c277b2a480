import Mathlib.Data.List.Perm.Basic
import Montage.Proofs.Json.Printer
import Montage.Proofs.Time.Binary
import Montage.Proofs.Time.Stamp
import Montage.Transcript

/-!
# What a transcript keeps of its document

Each entry of the document that says when it starts is one segment of the transcript. It need not
say when it stops, or what is said; of an end before the start nothing is kept. Main statement: the
segments are those of the entries, one for each, in order of their starts, and do not depend on the
order of the entries if no two of them start together.
-/

namespace Montage.Transcript
open TimeScale

/-! ## Entries -/

section
variable {T : Type} [TimeScale T]

/-- A value that a transcript is read from. -/
inductive IsDocument : Json T → Prop
  | list (items : List (Json T)) : IsDocument (.list items)
  | object (ms : Members T) : IsDocument (.object ms)

/-- The entries of a document, which are values of any kind. -/
def entries : Json T → List (Json T)
  | .list items => items
  | .object ms => ((Members.get? "segments" ms).bind Json.asList?).getD []
  | _ => []

def startOf? (e : Json T) : Option T := (e.get? "start").bind Stamp.ofJson?

def stopOf? (e : Json T) : Option T := (e.get? "end").bind Stamp.ofJson?

/-- An entry stands for a segment: the start is its own, the stop too if there is one that is not
before the start, and a text that is missing is empty. -/
structure Tells (e : Json T) (s : Segment T) : Prop where
  start : startOf? e = some s.start
  stop : stopOf? e = some s.stop ∧ s.start ≤ s.stop ∨
    (∀ t, stopOf? e = some t → ¬ s.start ≤ t) ∧ s.stop = s.start
  text : s.text = ((e.get? "text").bind Json.asText?).getD ""

theorem IsDocument.ofJson {j : Json T} (h : IsDocument j) :
    ∃ t, ofJson j = .ok t ∧ t.segments = segmentsOf (entries j) := by
  cases h with
  | list items => exact ⟨_, rfl, rfl⟩
  | object ms =>
    cases htext : (Members.get? "text" ms).bind Json.asText? with
    | none =>
      simp only [Transcript.ofJson, htext]
      exact ⟨_, rfl, rfl⟩
    | some s =>
      simp only [Transcript.ofJson, htext]
      split_ifs <;> exact ⟨_, rfl, rfl⟩

theorem isDocument_of_ofJson {j : Json T} {t : Transcript T} (h : ofJson j = .ok t) :
    IsDocument j := by
  cases j with
  | list items => exact .list items
  | object ms => exact .object ms
  | _ => cases h

theorem segments_of_ofJson {j : Json T} {t : Transcript T} (h : ofJson j = .ok t) :
    t.segments = segmentsOf (entries j) := by
  obtain ⟨u, hu, hsegments⟩ := (isDocument_of_ofJson h).ofJson
  rw [h] at hu
  exact Except.ok.inj hu ▸ hsegments

theorem ofText_eq_ok {s : String} {t : Transcript T} :
    ofText s = .ok t ↔ ∃ j, Json.ofText s = .ok j ∧ ofJson j = .ok t := by
  unfold ofText
  cases (Json.ofText s : Except Fault (Json T)) with
  | error e => exact ⟨nofun, nofun⟩
  | ok j => exact ⟨fun h => ⟨j, rfl, h⟩, fun ⟨_, hj, h⟩ => by cases hj; exact h⟩

theorem segmentOf?_eq (e : Json T) : segmentOf? e = (startOf? e).map fun start =>
    ⟨start, ((stopOf? e).filter fun t => start ≤ t).getD start,
      ((e.get? "text").bind Json.asText?).getD ""⟩ := by
  rw [Option.map_eq_bind]
  rfl

theorem isSome_segmentOf? (e : Json T) : (segmentOf? e).isSome = (startOf? e).isSome := by
  rw [segmentOf?_eq, Option.isSome_map]

theorem tells_of_segmentOf? {e : Json T} {s : Segment T} (h : segmentOf? e = some s) :
    Tells e s := by
  rw [segmentOf?_eq] at h
  obtain ⟨start, hstart, rfl⟩ := Option.map_eq_some_iff.mp h
  refine ⟨hstart, ?_, rfl⟩
  cases hstop : stopOf? e with
  | none => exact .inr ⟨nofun, rfl⟩
  | some t =>
    by_cases hle : start ≤ t
    · left
      simp [Option.filter, hle]
    · right
      simp [Option.filter, hle]

theorem forall₂_tells (items : List (Json T)) :
    List.Forall₂ Tells (items.filter fun e => (startOf? e).isSome)
      (items.filterMap segmentOf?) := by
  induction items with
  | nil => exact .nil
  | cons e items ih =>
    cases hs : segmentOf? e with
    | none =>
      have hnone : (startOf? e).isSome = false := by rw [← isSome_segmentOf?, hs]; rfl
      rw [List.filterMap_cons_none hs, List.filter_cons_of_neg (by simp [hnone])]
      exact ih
    | some s =>
      have hsome : (startOf? e).isSome = true := by rw [← isSome_segmentOf?, hs]; rfl
      rw [List.filterMap_cons_some hs, List.filter_cons_of_pos (by simp [hsome])]
      exact .cons (tells_of_segmentOf? hs) ih

theorem map_start_filterMap (items : List (Json T)) :
    (items.filterMap segmentOf?).map Segment.start = items.filterMap startOf? := by
  rw [List.map_filterMap]
  congr 1
  funext e
  rw [segmentOf?_eq, Option.map_map]
  exact Option.map_id'

end

/-! ## In order of time -/

/-- The segments are those that the entries with a start stand for, in order of time. -/
structure Chronicle (es : List (Json Float)) (ss : List (Segment Float)) : Prop where
  ordered : ss.Pairwise fun a b => a.start ≤ b.start
  spans : ∀ s ∈ ss, zero ≤ s.start ∧ s.start ≤ s.stop
  told : ∃ usable, usable.Perm (es.filter fun e => (startOf? e).isSome) ∧
    List.Forall₂ Tells usable ss

theorem Tells.fits {e : Json Float} {s : Segment Float} (h : Tells e s) :
    isFinite s.start = true ∧ zero ≤ s.start ∧ s.start ≤ s.stop := by
  obtain ⟨j, -, hj⟩ := Option.bind_eq_some_iff.mp h.start
  obtain ⟨hfinite, hnonneg⟩ := Stamp.bounds_of_ofJson? hj
  refine ⟨hfinite, hnonneg, ?_⟩
  obtain ⟨-, hle⟩ | ⟨-, hstop⟩ := h.stop
  · exact hle
  · rw [hstop]
    exact Binary.defined_of_isFinite hfinite

theorem exists_tells_of_mem {es : List (Json Float)} {s : Segment Float} (h : s ∈ segmentsOf es) :
    ∃ e ∈ es, Tells e s := by
  obtain ⟨e, he, hs⟩ := List.mem_filterMap.mp (List.mem_mergeSort.mp h)
  exact ⟨e, he, tells_of_segmentOf? hs⟩

theorem chronicle_segmentsOf (es : List (Json Float)) : Chronicle es (segmentsOf es) where
  ordered := by
    have hsorted := Ascends.pairwise_mergeSort Segment.start (es.filterMap segmentOf?)
    refine hsorted.imp_of_mem fun ha hb hab => ?_
    obtain ⟨_, -, ha⟩ := exists_tells_of_mem ha
    obtain ⟨_, -, hb⟩ := exists_tells_of_mem hb
    exact OnLine.le_of_ascending (Binary.defined_of_isFinite ha.fits.1)
      (Binary.defined_of_isFinite hb.fits.1) hab
  spans s hs := by
    obtain ⟨_, -, h⟩ := exists_tells_of_mem hs
    exact h.fits.2
  told := by
    obtain ⟨usable, htold, hperm⟩ := List.perm_comp_forall₂
      (List.mergeSort_perm (es.filterMap segmentOf?) fun a b => ascending a.start b.start)
      (forall₂_tells es).flip
    exact ⟨usable, hperm, htold.flip⟩

theorem segmentsOf_of_perm {es es' : List (Json Float)} (h : es'.Perm es)
    (hdistinct : (es.filterMap startOf?).Nodup) : segmentsOf es' = segmentsOf es := by
  refine (Ascends.mergeSort_eq_of_perm Segment.start (h.symm.filterMap segmentOf?) ?_).symm
  rwa [map_start_filterMap]

/-- A transcript has a segment for each entry with a start, in order of time, and a document with
the same entries in another order has the same segments, if no two entries start together. -/
theorem ofText_chronicle {s : String} {t : Transcript Float} (h : ofText s = .ok t) :
    ∃ j, Json.ofText s = .ok j ∧ Chronicle (entries j) t.segments ∧
      (((entries j).filterMap startOf?).Nodup → ∀ s' j', Json.ofText s' = .ok j' → IsDocument j' →
        (entries j').Perm (entries j) → ∃ t', ofText s' = .ok t' ∧ t'.segments = t.segments) := by
  obtain ⟨j, hj, ht⟩ := ofText_eq_ok.mp h
  have hsegments := segments_of_ofJson ht
  refine ⟨j, hj, hsegments ▸ chronicle_segmentsOf (entries j), ?_⟩
  intro hdistinct s' j' hj' hdocument hperm
  obtain ⟨t', ht', hsegments'⟩ := hdocument.ofJson
  refine ⟨t', ofText_eq_ok.mpr ⟨j', hj', ht'⟩, ?_⟩
  rw [hsegments', segmentsOf_of_perm hperm hdistinct, hsegments]

/-- Two entries out of order, one of which stops before it starts, around one without a start. -/
def spokenEntries : List (Json Float) := [
  .object [("end", .number (.int 4)), ("start", .text " 1:05 "), ("text", .text "so long")],
  .object [("end", .text "later"), ("start", .number (.int (-3)))],
  .object [("end", .number (.int 4)), ("start", .number (.int 2)), ("text", .text "hello")]]

/-- The text of an object with these entries, and that of a list that has them in reverse. -/
theorem ofText_chronicle_spokenEntries :
    let document : Json Float := .object [("segments", .list spokenEntries)]
    let turned : Json Float := .list (spokenEntries.reverse)
    ∃ t, ofText (document.pretty ++ "\n") = .ok t ∧ Chronicle spokenEntries t.segments ∧
      spokenEntries.filterMap startOf? = [65.0, 2.0] ∧
      ∃ t', ofText (turned.pretty ++ "\n") = .ok t' ∧ t'.segments = t.segments := by
  intro document turned
  have hlegible : document.Legible := by decide +kernel
  have hlegible' : turned.Legible := by decide +kernel
  have hread : Json.ofText (document.pretty ++ "\n") = .ok document :=
    hlegible.ofText_pretty (by decide +kernel)
  have hread' : Json.ofText (turned.pretty ++ "\n") = .ok turned :=
    hlegible'.ofText_pretty (by decide +kernel)
  obtain ⟨t, ht, -⟩ := (IsDocument.object [("segments", .list spokenEntries)]).ofJson
  have haccepted : ofText (document.pretty ++ "\n") = .ok t := ofText_eq_ok.mpr ⟨_, hread, ht⟩
  obtain ⟨j, hj, hchronicle, hturned⟩ := ofText_chronicle haccepted
  obtain rfl : document = j := Except.ok.inj (hread.symm.trans hj)
  have hstarts : spokenEntries.filterMap startOf? = [65.0, 2.0] := by decide +kernel
  have hdistinct : ((entries document).filterMap startOf?).Nodup := by
    change (spokenEntries.filterMap startOf?).Nodup
    rw [hstarts]
    decide +kernel
  have hperm : (entries turned).Perm (entries document) := List.reverse_perm spokenEntries
  exact ⟨t, haccepted, hchronicle, hstarts, hturned hdistinct _ turned hread' (.list _) hperm⟩

end Montage.Transcript
