import Mathlib.Algebra.BigOperators.Group.List.Basic
import Mathlib.Algebra.Order.BigOperators.Group.List
import Montage.Proofs.Time.Tenth
import Montage.Slot.Ranking

/-!
# Speech in a window

The speech in a window is what its segments have in common with it, and a segment that ends before
it starts has nothing in common with any window. Main statement: cutting a window in two cuts the
speech in it in two, no part of which is negative. So a wider window has no less speech in it, and a
proposal with enough speech around it still has enough when its end is moved later.
-/

namespace Montage
open TimeScale

namespace Segment
variable {s : Segment Rat} {a b c : Rat}

/-- Seconds of a segment between `a` and `b`. -/
def within (s : Segment Rat) (a b : Rat) : Rat := max (min s.stop b - max s.start a) 0

theorem within_nonneg (s : Segment Rat) (a b : Rat) : 0 ≤ s.within a b := le_max_right _ _

theorem within_of_stop_le (h : s.stop ≤ s.start) (a b : Rat) : s.within a b = 0 := by
  refine max_eq_right (sub_nonpos.mpr ?_)
  calc min s.stop b ≤ s.stop := min_le_left _ _
    _ ≤ s.start := h
    _ ≤ max s.start a := le_max_left _ _

/-- Both ends of a segment are moved into the window. -/
theorem within_eq (h : s.start ≤ s.stop) (hab : a ≤ b) :
    s.within a b = clamp a b s.stop - clamp a b s.start := by
  unfold within clamp
  dsimp only
  split_ifs <;> grind

/-- Moving a time into a window moves it into both parts of the window. -/
theorem clamp_add (hab : a ≤ b) (hbc : b ≤ c) (t : Rat) :
    clamp a c t + b = clamp a b t + clamp b c t := by
  unfold clamp
  dsimp only
  split_ifs <;> grind

theorem within_add (s : Segment Rat) (hab : a ≤ b) (hbc : b ≤ c) :
    s.within a c = s.within a b + s.within b c := by
  obtain h | h := le_total s.start s.stop
  · have hstop := clamp_add hab hbc s.stop
    have hstart := clamp_add hab hbc s.start
    rw [within_eq h (hab.trans hbc), within_eq h hab, within_eq h hbc]
    linarith
  · rw [within_of_stop_le h, within_of_stop_le h, within_of_stop_le h, add_zero]

theorem within_mono (s : Segment Rat) {a' b' : Rat} (ha : a' ≤ a) (hb : b ≤ b') :
    s.within a b ≤ s.within a' b' :=
  max_le_max_right 0 (sub_le_sub (min_le_min_left _ hb) (max_le_max_left _ ha))

end Segment

namespace Transcript
variable (t : Transcript Rat) {a b c : Rat}

theorem speechWithin_eq (a b : Rat) :
    t.speechWithin a b = (t.segments.map fun s => s.within a b).sum := by
  rw [List.sum_eq_foldl, speechWithin]
  simp only [Exact.later_eq, Exact.earlier_eq, Exact.zero_eq]
  rfl

theorem speechWithin_nonneg (a b : Rat) : 0 ≤ t.speechWithin a b := by
  rw [speechWithin_eq]
  apply List.sum_nonneg
  rw [List.forall_mem_map]
  exact fun s _ => s.within_nonneg a b

theorem speechWithin_add (hab : a ≤ b) (hbc : b ≤ c) :
    t.speechWithin a c = t.speechWithin a b + t.speechWithin b c := by
  rw [speechWithin_eq, speechWithin_eq, speechWithin_eq, ← List.sum_map_add]
  exact congrArg List.sum (List.map_congr_left fun s _ => s.within_add hab hbc)

theorem speechWithin_mono {a' b' : Rat} (ha : a' ≤ a) (hb : b ≤ b') :
    t.speechWithin a b ≤ t.speechWithin a' b' := by
  rw [speechWithin_eq, speechWithin_eq]
  exact List.sum_le_sum fun s _ => s.within_mono ha hb

end Transcript

namespace InsertRules
variable (r : InsertRules Rat) (t : Transcript Rat)

/-- A proposal is kept for the speech around it, or where there is no transcript. -/
theorem mem_spoken {ps : List (Proposal Rat)} {p : Proposal Rat} :
    p ∈ r.spoken t ps ↔ p ∈ ps ∧ (t.segments = [] ∨ r.minTopic ≤ r.speechAround t p) := by
  unfold spoken
  split_ifs with hempty
  · simp [List.isEmpty_iff.mp hempty]
  · simp [List.isEmpty_iff.not.mp hempty]

/-- Where a proposal ends, or would end without an end of its own. -/
def proposedStop (p : Proposal Rat) : Rat := p.stop.getD (p.start + r.target)

theorem speechAround_mono {p : Proposal Rat} {stop : Option Rat}
    (h : r.proposedStop p ≤ r.proposedStop { p with stop }) :
    r.speechAround t p ≤ r.speechAround t { p with stop } :=
  t.speechWithin_mono le_rfl (add_le_add_left h _)

/-- Speech adds up where a window is cut in two, is never negative and does not get less in a wider
window, so that no proposal is dropped for an end that is moved later. -/
theorem speech_adds_and_keeps :
    (∀ a b c, a ≤ b → b ≤ c → t.speechWithin a c = t.speechWithin a b + t.speechWithin b c) ∧
      (∀ a b, 0 ≤ t.speechWithin a b) ∧
      (∀ a b a' b', a' ≤ a → b ≤ b' → t.speechWithin a b ≤ t.speechWithin a' b') ∧
      ∀ ps qs p stop, p ∈ r.spoken t ps → r.proposedStop p ≤ r.proposedStop { p with stop } →
        { p with stop } ∈ qs → { p with stop } ∈ r.spoken t qs := by
  refine ⟨fun _ _ _ => t.speechWithin_add, t.speechWithin_nonneg, fun _ _ _ _ =>
    t.speechWithin_mono, ?_⟩
  intro ps qs p stop hkept hlater hq
  obtain ⟨-, hempty | henough⟩ := (r.mem_spoken t).mp hkept
  · exact (r.mem_spoken t).mpr ⟨hq, .inl hempty⟩
  · exact (r.mem_spoken t).mpr ⟨hq, .inr (henough.trans (r.speechAround_mono t hlater))⟩

/-- Two segments that overlap, the later one first, and one that ends before it starts. -/
def tangledSpeech : Transcript Rat :=
  .ofSegments [⟨8, 12, "and on"⟩, ⟨5, 9, "on"⟩, ⟨21, 19, "off"⟩]

theorem speech_adds_and_keeps_tangledSpeech :
    let r : InsertRules Rat := default
    let p : Proposal Rat := ⟨6, none, none, "", "sea", []⟩
    tangledSpeech.speechWithin 3 25 = 8 ∧ tangledSpeech.speechWithin 3 (17 / 2) = 4 ∧
      tangledSpeech.speechWithin 3 25 =
        tangledSpeech.speechWithin 3 (17 / 2) + tangledSpeech.speechWithin (17 / 2) 25 ∧
      0 ≤ tangledSpeech.speechWithin 25 3 ∧
      tangledSpeech.speechWithin 6 10 ≤ tangledSpeech.speechWithin (11 / 2) 20 ∧
      p ∈ r.spoken tangledSpeech [p] ∧
      r.proposedStop p ≤ r.proposedStop { p with stop := some 15 } ∧
      { p with stop := some 15 } ∈ r.spoken tangledSpeech [{ p with stop := some 15 }] := by
  intro r p
  obtain ⟨hadd, hpos, hmono, hkeep⟩ := speech_adds_and_keeps r tangledSpeech
  have hkept : p ∈ r.spoken tangledSpeech [p] :=
    (r.mem_spoken tangledSpeech).mpr ⟨List.mem_singleton_self p, .inr (by decide +kernel)⟩
  have hlater : r.proposedStop p ≤ r.proposedStop { p with stop := some 15 } := by decide +kernel
  exact ⟨by decide +kernel, by decide +kernel, hadd _ _ _ (by decide +kernel) (by decide +kernel),
    hpos _ _, hmono _ _ _ _ (by decide +kernel) (by decide +kernel), hkept, hlater,
    hkeep _ _ p (some 15) hkept hlater (List.mem_singleton_self _)⟩

end InsertRules

end Montage
