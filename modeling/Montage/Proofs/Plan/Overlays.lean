import Montage.Proofs.Plan.Windows
import Montage.Proofs.Slot.Rules

/-!
# Overlays of a repaired plan

Main statement: a repaired plan has no more overlays than the rules allow, each of them ends when
the rules say, up to the leeway, and every fetch has a name. Unless an assembly was rewritten, the
overlays are the first ones of the plan, each with its start and its clip.

No stage moves an overlay or changes what it shows, so that the last part is about one list, the
placements of a plan, which the truncation cuts short and the other stages leave alone.
-/

namespace Montage
open TimeScale

namespace InsertRules
variable {r : InsertRules Rat}

theorem endWithin_bounds (h : r.minDuration ≤ r.maxDuration) (start stop : Rat) :
    start + r.minDuration - leeway ≤ r.endWithin start stop ∧
      r.endWithin start stop ≤ start + r.maxDuration + leeway := by
  obtain ⟨hlow, hhigh⟩ := (r.chooses_endWithin start stop).within h
  constructor <;> linarith [slack_le_leeway]

/-- An overlay lasts as long as the rules allow once its end is settled. -/
theorem settledEnd_bounds (h : r.minDuration ≤ r.maxDuration) (p : VideoOverlay Rat) :
    r.minDuration - leeway ≤ r.settledEnd p - p.start ∧
      r.settledEnd p - p.start ≤ r.maxDuration + leeway := by
  have hpos := leeway_pos
  have hmoved (stop : Rat) : r.minDuration - leeway ≤ r.endWithin p.start stop - p.start ∧
      r.endWithin p.start stop - p.start ≤ r.maxDuration + leeway := by
    have hends := endWithin_bounds h p.start stop
    constructor <;> linarith [hends.1, hends.2]
  unfold settledEnd
  split
  · exact hmoved p.start
  · rename_i stop _
    split_ifs with hkept
    · have hclamp := r.clampDuration_bounds h (stop - p.start)
      rw [beq_iff_eq.mp hkept] at hclamp
      constructor <;> linarith [hclamp.1, hclamp.2]
    · exact hmoved stop

end InsertRules

/-- The correction rewrites an assembly. -/
def Correction.fillsGaps {T : Type} : Correction T → Bool
  | .filledGaps _ => true
  | _ => false

namespace Plan

section
variable {T : Type}

/-- When the overlays of a plan start, and the clips that they show, in its order. -/
def placements (ts : Plan T) : List (T × String) := (inserts ts).map fun p => (p.start, p.clip)

theorem placements_nameFrom (used : List String) (n i : Nat) (ts : Plan T) :
    placements (nameFrom used n i ts).plan = placements ts := by
  rw [placements, inserts_nameFrom, placements]

theorem placements_truncateInserts (n : Nat) (ts : Plan T) :
    placements (truncateInserts n ts).plan = (placements ts).take n := by
  rw [placements, inserts_truncateInserts, List.map_take, placements]

/-- An assembly that is not rewritten is at most put in order. -/
theorem placements_repairAssembly [TimeScale T] {ts : Plan T}
    (h : ∀ n, .filledGaps n ∉ (repairAssembly ts).corrections) :
    placements (repairAssembly ts).plan = placements ts := by
  have hmended := mended_repairAssembly ts
  generalize repairAssembly ts = mended at h hmended ⊢
  cases hmended with
  | assembled _ => rfl
  | @filled a _ _ _ _ _ _ => exact absurd List.mem_cons_self (h a.overlays.length)
  | ordered hs _ _ =>
    rw [hs.split, placements, placements, inserts_append, inserts_append, inserts_cons,
      inserts_cons]
    rfl

end

theorem placements_clampDurations (r : InsertRules Rat) (ts : Plan Rat) :
    placements (clampDurations r ts).plan = placements ts := by
  rw [placements, inserts_clampDurations, List.map_map, placements]
  rfl

variable {r : InsertRules Rat}

variable (r) in
/-- A repaired plan keeps to the rules for insertions, all its fetches have names, and its overlays
are the first ones of the plan, unless they fill the gaps of an assembly. -/
theorem repair_keeps_first_overlays (h : r.minDuration ≤ r.maxDuration) (ts : Plan Rat) :
    (ts.repair r).plan.count .overlayVideo ≤ r.maxInserts ∧
    (∀ t ∈ (ts.repair r).plan, ∀ p, t.op = .overlayVideo p → ∃ stop, p.stop = some stop ∧
      r.minDuration - 1 / 10 ^ 9 ≤ stop - p.start ∧ stop - p.start ≤ r.maxDuration + 1 / 10 ^ 9) ∧
    (∀ t ∈ (ts.repair r).plan, t.isFetch = true → t.output.isSome = true) ∧
    ((∀ n, .filledGaps n ∉ (ts.repair r).corrections) →
      placements (ts.repair r).plan = (placements ts).take r.maxInserts) := by
  refine ⟨count_repair_le ts, ?_, named_repair ts, ?_⟩
  · intro t ht p hp
    exact ⟨r.settledEnd p, settled_repair ts t ht p hp, InsertRules.settledEnd_bounds h p⟩
  · intro hkept
    have hassembly : ∀ n, .filledGaps n ∉ (repairAssembly (nameFetches ts).plan).corrections := by
      intro n hn
      apply hkept n
      simp only [repair, Repaired.andThen, List.mem_append]
      exact Or.inl (Or.inl (Or.inr hn))
    rw [repair_plan, placements_truncateInserts, clamped, placements_clampDurations,
      placements_repairAssembly hassembly, nameFetches, placements_nameFrom]

/-- Two overlays of which one is too long and one has no end, for rules with one insertion. -/
def crowdedPlan : Plan Rat :=
  [⟨.fetchVideo ⟨"city", [], 30, "landscape"⟩, none, []⟩,
    ⟨.overlayVideo ⟨1033 / 100, some 60, "stock_1"⟩, none, []⟩,
    ⟨.overlayVideo ⟨30, none, "stock_1"⟩, none, []⟩]

theorem repair_keeps_first_of_crowded :
    InsertRules.narrowRules.minDuration ≤ InsertRules.narrowRules.maxDuration ∧
      placements (crowdedPlan.repair { InsertRules.narrowRules with maxInserts := 1 }).plan =
        [(1033 / 100, "stock_1")] := by
  have h : InsertRules.narrowRules.minDuration ≤ InsertRules.narrowRules.maxDuration := by
    decide +kernel
  refine ⟨h, ?_⟩
  have hfirst := (repair_keeps_first_overlays { InsertRules.narrowRules with maxInserts := 1 } h
    crowdedPlan).2.2.2
  rw [hfirst]
  · decide +kernel
  · intro n hn
    have hall : ∀ c ∈ (crowdedPlan.repair { InsertRules.narrowRules with
        maxInserts := 1 }).corrections, c.fillsGaps = false := by decide +kernel
    exact absurd (hall _ hn) nofun

end Plan

end Montage
