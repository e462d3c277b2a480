import Mathlib.Data.List.Chain
import Montage.Proofs.Config.Rules
import Montage.Slot.Ranking

/-!
# Slots keep the rules

Whatever the boundaries, the transcript and the proposals are, the planned slots are at most as many
as the rules allow, as long as the rules allow, away from both ends of the video and from each
other. Moving a time to the grid may miss a rule by the tolerance, and by no more than that.

Both ways of planning build a list of slots behind the end of the last one. What is kept on the way
is `Follows`: the rules hold for what is still to come, and its first slot keeps its distance from
the end that is carried along.
-/

namespace Montage
open TimeScale

namespace InsertRules

/-- What a rule may be missed by, in seconds. -/
def leeway : Rat := 1 / 10 ^ 9

variable (r : InsertRules Rat)

/-- A window of an allowed duration inside the range that the rules leave of a video. -/
structure Admits (duration : Rat) (s : Slot Rat) : Prop where
  not_short : r.minDuration - leeway ≤ s.duration
  not_long : s.duration ≤ r.maxDuration + leeway
  not_early : r.avoidFirst - leeway ≤ s.start
  not_late : s.stop ≤ duration - r.avoidLast + leeway

/-- Far enough behind a slot that ended at `last`. -/
def Apart (last : Rat) (s : Slot Rat) : Prop := last + r.minGap - leeway ≤ s.start

/-- Slots as the rules want them. -/
structure Keeps (duration : Rat) (slots : List (Slot Rat)) : Prop where
  number : slots.length ≤ r.maxInserts
  each : ∀ s ∈ slots, r.Admits duration s
  gaps : slots.IsChain fun s t => r.Apart s.stop t

/-- At most `n` slots as the rules want them, behind a slot that ended at `last?`. -/
structure Follows (duration : Rat) (n : Nat) (last? : Option Rat) (slots : List (Slot Rat)) :
    Prop where
  number : slots.length ≤ n
  each : ∀ s ∈ slots, r.Admits duration s
  gaps : slots.IsChain fun s t => r.Apart s.stop t
  next : ∀ last ∈ last?, ∀ s ∈ slots.head?, r.Apart last s

variable {r} {duration : Rat}

theorem leeway_pos : 0 < leeway := by
  unfold leeway
  norm_num

theorem slack_le_leeway : Tenth.slack ≤ leeway := by
  unfold Tenth.slack leeway
  norm_num

/-! ## One window -/

theorem latestEnd_le : r.latestEnd duration ≤ duration - r.avoidLast + leeway :=
  (Tenth.below_le _).trans (by linarith [slack_le_leeway])

theorem le_earliestStart : r.avoidFirst - leeway ≤ r.earliestStart :=
  le_trans (by linarith [slack_le_leeway]) (Tenth.le_above r.avoidFirst)

/-- Moved to the grid, a start is no earlier than the earliest one, which is on the grid. -/
theorem earliestStart_le_above (t : Rat) :
    r.earliestStart ≤ Tenth.above (later t r.earliestStart) := by
  have hgrid : Tenth.OnGrid r.earliestStart := Tenth.onGrid_above r.avoidFirst
  rw [Exact.later_eq]
  calc r.earliestStart = Tenth.above r.earliestStart := hgrid.above_eq.symm
    _ ≤ Tenth.above (max t r.earliestStart) := Tenth.above_mono (le_max_right _ _)

theorem le_nextStart (last : Rat) : last + r.minGap - leeway ≤ r.nextStart last :=
  le_trans (by linarith [slack_le_leeway]) (Tenth.le_above (last + r.minGap))

theorem chooses_fitEnd (start stop : Rat) : r.Chooses start (r.fitEnd start stop) := by
  simp only [fitEnd]
  split_ifs with hoff
  · exact .offGrid _ hoff
  · have hgrid := (Tenth.onGrid_above (start + r.minDuration)).clamp
      (Tenth.onGrid_below (start + r.maxDuration)) (Tenth.onGrid_nearest stop)
    exact .onGrid hgrid (Exact.le_clamp (not_lt.mp hoff) _) (Exact.clamp_le _ _ _)

theorem fitEnd_bounds (h : r.minDuration ≤ r.maxDuration) (start stop : Rat) :
    start + r.minDuration - leeway ≤ r.fitEnd start stop ∧
      r.fitEnd start stop ≤ start + r.maxDuration + leeway := by
  obtain ⟨hlow, hhigh⟩ := (chooses_fitEnd start stop).within h
  constructor <;> linarith [slack_le_leeway]

/-- A slot with a fitted end is admitted if it starts and ends in the range of the video. -/
theorem admits_of_fitEnd (h : r.minDuration ≤ r.maxDuration) {s : Slot Rat} {stop : Rat}
    (hstop : s.stop = r.fitEnd s.start stop) (hfirst : r.avoidFirst - leeway ≤ s.start)
    (hlast : ¬ r.latestEnd duration < s.stop) : r.Admits duration s := by
  have hb := fitEnd_bounds h s.start stop
  rw [← hstop] at hb
  refine ⟨?_, ?_, hfirst, (not_lt.mp hlast).trans latestEnd_le⟩
  · change r.minDuration - leeway ≤ s.stop - s.start
    linarith [hb.1]
  · change s.stop - s.start ≤ r.maxDuration + leeway
    linarith [hb.2]

/-! ## Windows one behind the other -/

theorem Follows.nil (n : Nat) (last? : Option Rat) : r.Follows duration n last? [] where
  number := Nat.zero_le n
  each := nofun
  gaps := List.isChain_nil
  next := nofun

theorem Follows.cons {n : Nat} {last? : Option Rat} {s : Slot Rat} {slots : List (Slot Rat)}
    (hs : r.Admits duration s) (hlast : ∀ last ∈ last?, r.Apart last s)
    (h : r.Follows duration n (some s.stop) slots) :
    r.Follows duration (n + 1) last? (s :: slots) where
  number := Nat.succ_le_succ h.number
  each := List.forall_mem_cons.mpr ⟨hs, h.each⟩
  gaps := List.isChain_cons.mpr ⟨h.next s.stop rfl, h.gaps⟩
  next last hl t ht := by
    obtain rfl : s = t := by simpa using ht
    exact hlast last hl

theorem Follows.mono {m n : Nat} {last? : Option Rat} {slots : List (Slot Rat)} (hmn : m ≤ n)
    (h : r.Follows duration m last? slots) : r.Follows duration n last? slots :=
  { h with number := h.number.trans hmn }

theorem Follows.keeps {last? : Option Rat} {slots : List (Slot Rat)}
    (h : r.Follows duration r.maxInserts last? slots) : r.Keeps duration slots :=
  ⟨h.number, h.each, h.gaps⟩

theorem keeps_nil : r.Keeps duration [] := (Follows.nil r.maxInserts none).keeps

/-! ## Slots at boundaries -/

theorem sections_follows (h : r.minDuration ≤ r.maxDuration) (boundaries : List Rat)
    (length : Rat) (n i : Nat) (last? : Option Rat) :
    r.Follows duration n last?
      (r.sections boundaries length (r.latestEnd duration) n i last?) := by
  induction n generalizing i last? with
  | zero => exact Follows.nil 0 last?
  | succ n ih =>
    simp only [sections, Exact.later_eq]
    split_ifs with hlate
    · exact (ih (i + 1) last?).mono (Nat.le_succ n)
    · refine Follows.cons (admits_of_fitEnd h rfl ?_ hlate) ?_ (ih (i + 1) _)
      · have hfirst := le_earliestStart (r := r)
        cases last? with
        | none => exact hfirst.trans (le_max_right _ _)
        | some last => exact (hfirst.trans (le_max_right _ _)).trans (le_max_left _ _)
      · rintro last rfl
        exact (le_nextStart last).trans (le_max_right _ _)

theorem slotsAt_keeps (h : r.minDuration ≤ r.maxDuration) (boundaries : List Rat) :
    r.Keeps duration (r.slotsAt boundaries duration) := by
  unfold slotsAt
  split_ifs
  · exact keeps_nil
  · exact (sections_follows h boundaries _ r.maxInserts 0 none).keeps

@[simp] theorem describe_start (t : Transcript Rat) (s : Slot Rat) :
    (describe t s).start = s.start := by
  simp only [describe]

@[simp] theorem describe_stop (t : Transcript Rat) (s : Slot Rat) :
    (describe t s).stop = s.stop := by
  simp only [describe]

@[simp] theorem describe_duration (t : Transcript Rat) (s : Slot Rat) :
    (describe t s).duration = s.duration := by
  simp only [Slot.duration, describe_start, describe_stop]

/-- A description leaves the window as it is. -/
theorem Admits.describe {s : Slot Rat} (t : Transcript Rat) (h : r.Admits duration s) :
    r.Admits duration (describe t s) where
  not_short := by rw [describe_duration]; exact h.not_short
  not_long := by rw [describe_duration]; exact h.not_long
  not_early := by rw [describe_start]; exact h.not_early
  not_late := by rw [describe_stop]; exact h.not_late

theorem Keeps.map_describe {slots : List (Slot Rat)} (t : Transcript Rat)
    (h : r.Keeps duration slots) : r.Keeps duration (slots.map (InsertRules.describe t)) where
  number := by rw [List.length_map]; exact h.number
  each := by
    rw [List.forall_mem_map]
    intro s hs
    exact (h.each s hs).describe t
  gaps := by
    simp only [List.isChain_map, Apart, describe_start, describe_stop]
    exact h.gaps

theorem slots_keeps (h : r.minDuration ≤ r.maxDuration) (t : Transcript Rat) :
    r.Keeps duration (r.slots t duration) :=
  (slotsAt_keeps h t.boundaries).map_describe t

/-! ## Slots from proposals -/

/-- The window of a proposal, whether it is moved behind the slot before or not. -/
theorem windowFor_spec (latest : Rat) (last? : Option Rat) (p : Proposal Rat) :
    r.avoidFirst - leeway ≤ (r.windowFor latest last? p).1 ∧
      (∀ last ∈ last?, last + r.minGap - leeway ≤ (r.windowFor latest last? p).1) ∧
      ∃ stop, (r.windowFor latest last? p).2 = r.fitEnd (r.windowFor latest last? p).1 stop := by
  have hfirst : r.avoidFirst - leeway ≤ Tenth.above (later p.start r.earliestStart) :=
    le_earliestStart.trans (earliestStart_le_above p.start)
  cases last? with
  | none => exact ⟨hfirst, nofun, _, rfl⟩
  | some last =>
    simp only [windowFor, Option.mem_some_iff, forall_eq']
    split_ifs with hnext
    · exact ⟨hfirst.trans hnext.le, le_nextStart last, _, rfl⟩
    · exact ⟨hfirst, (le_nextStart last).trans (not_lt.mp hnext), _, rfl⟩

theorem place_follows (h : r.minDuration ≤ r.maxDuration) (n : Nat) (last? : Option Rat)
    (ps : List (Proposal Rat)) :
    r.Follows duration n last? (r.place (r.latestEnd duration) n last? ps) := by
  induction ps generalizing n last? with
  | nil => exact Follows.nil n last?
  | cons p ps ih =>
    cases n with
    | zero => exact Follows.nil 0 last?
    | succ n =>
      obtain ⟨hfirst, hgap, stop, hstop⟩ := windowFor_spec (r := r) (r.latestEnd duration) last? p
      simp only [place]
      split_ifs with hlate
      · exact ih (n + 1) last?
      · exact Follows.cons (admits_of_fitEnd h hstop hfirst hlate) hgap (ih n _)

theorem fix_keeps (h : r.minDuration ≤ r.maxDuration) (ps : List (Proposal Rat)) :
    r.Keeps duration (r.fix ps duration) :=
  (place_follows h r.maxInserts none _).keeps

/-! ## Slots for what was proposed -/

variable (r duration)

/-- What was proposed is used, or else the slots for the transcript are. -/
theorem rankedSlots_cases (proposed : Except Failure (List (Proposal Rat)))
    (t : Transcript Rat) :
    r.rankedSlots proposed t duration = r.slots t duration ∨
      ∃ ps, r.rankedSlots proposed t duration = r.fix ps duration ∧ r.fix ps duration ≠ [] := by
  cases proposed with
  | error e => exact Or.inl rfl
  | ok ps =>
    simp only [rankedSlots]
    split_ifs with hempty
    · exact Or.inl rfl
    · exact Or.inr ⟨r.spoken t ps, rfl, by simpa using hempty⟩

/-- Each way of planning keeps the rules, and where slots for the transcript are found, proposals
do not lead to none. -/
theorem planned_slots_keep_rules (h : r.minDuration ≤ r.maxDuration) (boundaries : List Rat)
    (t : Transcript Rat) (ps : List (Proposal Rat))
    (proposed : Except Failure (List (Proposal Rat))) :
    r.Keeps duration (r.slotsAt boundaries duration) ∧
      r.Keeps duration (r.slots t duration) ∧
      r.Keeps duration (r.fix ps duration) ∧
      r.Keeps duration (r.rankedSlots proposed t duration) ∧
      (r.slots t duration ≠ [] → r.rankedSlots proposed t duration ≠ []) := by
  refine ⟨slotsAt_keeps h boundaries, slots_keeps h t, fix_keeps h ps, ?_, ?_⟩
  · obtain heq | ⟨qs, heq, -⟩ := rankedSlots_cases r duration proposed t
    · exact heq ▸ slots_keeps h t
    · exact heq ▸ fix_keeps h qs
  · intro hslots
    obtain heq | ⟨qs, heq, hne⟩ := rankedSlots_cases r duration proposed t
    · exact heq ▸ hslots
    · exact heq ▸ hne

/-- Rules off the grid whose range of durations has no tenth in it. -/
def narrowRules : InsertRules Rat where
  maxInserts := 2
  minDuration := 402 / 100
  maxDuration := 408 / 100
  minTopic := 5
  avoidFirst := 603 / 100
  avoidLast := 796 / 100
  minGap := 997 / 100

theorem planned_slots_keep_narrowRules :
    narrowRules.minDuration ≤ narrowRules.maxDuration ∧
      narrowRules.Keeps (6037 / 100)
        (narrowRules.slotsAt [10, 1837 / 100, 40] (6037 / 100)) ∧
      narrowRules.Keeps (6037 / 100) (narrowRules.slots .empty (6037 / 100)) ∧
      narrowRules.Keeps (6037 / 100)
        (narrowRules.fix [⟨20, some 40, none, "", "b", []⟩, ⟨2, none, none, "a", "", []⟩]
          (6037 / 100)) ∧
      narrowRules.Keeps (6037 / 100)
        (narrowRules.rankedSlots (.error (.internal "offline")) .empty (6037 / 100)) ∧
      (narrowRules.slots .empty (6037 / 100) ≠ [] →
        narrowRules.rankedSlots (.error (.internal "offline")) .empty (6037 / 100) ≠ []) := by
  have h : narrowRules.minDuration ≤ narrowRules.maxDuration := by decide +kernel
  exact ⟨h, planned_slots_keep_rules narrowRules (6037 / 100) h _ _ _ _⟩

end InsertRules

end Montage
