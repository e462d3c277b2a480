import Montage.Proofs.Config.Rules
import Montage.Plan.Inserts

/-!
# Insertions under the rules

The two stages of the repair that look at overlays. An end that was moved into the rules is moved no
further, on the grid of tenths and off it, also where the least duration is above the greatest. A
truncated plan holds as many overlays as are allowed, and each of its tasks does what a task of the
plan did, under the same name.
-/

namespace Montage
open TimeScale

namespace InsertRules
variable (r : InsertRules Rat)

/-- The end of an overlay that starts at `start` need not be moved. -/
def Settles (start stop : Rat) : Prop :=
  r.clampDuration (stop - start) = stop - start ∨ r.endWithin start stop = stop

theorem settles_add_clampDuration (start d : Rat) :
    r.Settles start (start + r.clampDuration d) := by
  left
  rw [add_sub_cancel_left]
  exact r.clampDuration_clampDuration d

/-- An end on the grid between the two tenths that bound the range need not be moved: where it
oversteps the range, it does so by less than a tenth and is one of the two. -/
theorem settles_of_onGrid {start e : Rat} (hgrid : Tenth.OnGrid e)
    (hlow : Tenth.above (start + r.minDuration) ≤ e)
    (hhigh : e ≤ Tenth.below (start + r.maxDuration)) : r.Settles start e := by
  have habove := Tenth.le_above (start + r.minDuration)
  have hbelow := Tenth.below_le (start + r.maxDuration)
  have hslack := Tenth.slack_lt
  by_cases hclamp : r.clampDuration (e - start) = e - start
  · exact Or.inl hclamp
  · right
    rw [clampDuration_eq] at hclamp
    simp only [endWithin, if_neg (not_lt.mpr (hlow.trans hhigh))]
    split_ifs with hshort
    · exact le_antisymm hlow (hgrid.le_of_lt (Tenth.onGrid_above _) (by linarith))
    · have hlong : r.maxDuration < e - start := by
        by_contra hmax
        apply hclamp
        rw [max_eq_left (not_lt.mp hshort), min_eq_left (not_lt.mp hmax)]
      exact le_antisymm ((Tenth.onGrid_below _).le_of_lt hgrid (by linarith)) hhigh

variable {r} in
/-- An end that the rules choose need not be moved. -/
theorem Chooses.settles {start e : Rat} (h : r.Chooses start e) : r.Settles start e := by
  cases h with
  | offGrid d _ => exact r.settles_add_clampDuration start d
  | onGrid grid low high => exact r.settles_of_onGrid grid low high

theorem chooses_endWithin (start stop : Rat) : r.Chooses start (r.endWithin start stop) := by
  simp only [endWithin]
  split_ifs with hoff
  · exact .offGrid _ hoff
  · exact .onGrid (Tenth.onGrid_above _) le_rfl (not_lt.mp hoff)
  · exact .onGrid (Tenth.onGrid_below _) (not_lt.mp hoff) le_rfl

theorem settledEnd_eq_of_settles {start stop : Rat} (clip : String) (h : r.Settles start stop) :
    r.settledEnd ⟨start, some stop, clip⟩ = stop := by
  simp only [settledEnd]
  split_ifs with hkept
  · rfl
  · obtain hclamp | hend := h
    · exact absurd (by simpa using hclamp) hkept
    · exact hend

/-- An overlay whose end is settled keeps it. -/
theorem settledEnd_settledEnd (p : VideoOverlay Rat) :
    r.settledEnd ⟨p.start, some (r.settledEnd p), p.clip⟩ = r.settledEnd p := by
  apply settledEnd_eq_of_settles
  obtain ⟨start, stop?, clip⟩ := p
  cases stop? with
  | none => exact (r.chooses_endWithin start start).settles
  | some stop =>
    simp only [settledEnd]
    split_ifs with hkept
    · exact Or.inl (by simpa using hkept)
    · exact (r.chooses_endWithin start stop).settles

end InsertRules

namespace Task
variable {T : Type}

theorem isKind_iff {k : Kind} {t : Task T} : t.isKind k = true ↔ t.kind? = some k := by
  simp [isKind]

theorem isFetch_of_isKind {k : Kind} {t : Task T} (h : t.isKind k = true) :
    t.isFetch = k.isFetch := by
  simp [isFetch, isKind_iff.mp h]

theorem isFetch_congr {s t : Task T} (h : s.op.kind? = t.op.kind?) : s.isFetch = t.isFetch := by
  simp only [isFetch, kind?, h]

@[simp] theorem isKind_with_inputs (k : Kind) (t : Task T) (inputs : List String) :
    isKind k { t with inputs } = t.isKind k := rfl

theorem isKind_congr {s t : Task T} (h : s.op.kind? = t.op.kind?) (k : Kind) :
    s.isKind k = t.isKind k := by
  simp only [isKind, kind?, h]

end Task

namespace Plan

/-! ## Durations -/

section
variable {T : Type} [TimeScale T] (r : InsertRules T)

/-- Clamping leaves a task as it is, or moves the end of an overlay. -/
theorem clampTask_cases (t : Task T) : (clampTask r t).plan = t ∨
    ∃ p, t.op = .overlayVideo p ∧ (clampTask r t).plan =
      { t with op := .overlayVideo { p with stop := some (r.settledEnd p) } } := by
  obtain ⟨op, output, inputs⟩ := t
  cases op with
  | overlayVideo p =>
    simp only [clampTask]
    split
    · exact Or.inl rfl
    · exact Or.inr ⟨p, rfl, rfl⟩
  | _ => exact Or.inl rfl

theorem clampTask_kind? (t : Task T) : (clampTask r t).plan.op.kind? = t.op.kind? := by
  obtain h | ⟨p, hop, h⟩ := clampTask_cases r t
  · rw [h]
  · rw [h, hop]
    rfl

theorem clampTask_output (t : Task T) : (clampTask r t).plan.output = t.output := by
  obtain h | ⟨p, -, h⟩ := clampTask_cases r t <;> rw [h]

theorem clampTask_inputs (t : Task T) : (clampTask r t).plan.inputs = t.inputs := by
  obtain h | ⟨p, -, h⟩ := clampTask_cases r t <;> rw [h]

/-- New ends of overlays are all that is corrected. -/
theorem corrections_clampTask (t : Task T) : ∀ c ∈ (clampTask r t).corrections,
    ∃ p, t.op = .overlayVideo p ∧ c = .clampedDuration p.clip p.start p.stop (r.settledEnd p) := by
  obtain ⟨op, output, inputs⟩ := t
  cases op with
  | overlayVideo p =>
    simp only [clampTask]
    split_ifs
    · exact List.forall_mem_nil _
    · exact List.forall_mem_singleton.mpr ⟨p, rfl, rfl⟩
  | _ => exact List.forall_mem_nil _

theorem clampTask_of_not_overlay {t : Task T} (h : t.isKind .overlayVideo = false) :
    clampTask r t = .clean t := by
  obtain ⟨op, output, inputs⟩ := t
  cases op with
  | overlayVideo p => exact absurd h (by simp [Task.isKind, Task.kind?, Operation.kind?])
  | _ => rfl

theorem count_clampDurations (k : Kind) (ts : Plan T) :
    (clampDurations r ts).plan.count k = ts.count k := by
  simp only [clampDurations, count, List.map_map, List.countP_map]
  congr 1
  funext t
  exact Task.isKind_congr (clampTask_kind? r t) k

variable {r} in
theorem clampDurations_of_clean {ts : Plan T} (h : ∀ t ∈ ts, clampTask r t = .clean t) :
    clampDurations r ts = .clean ts := by
  have hmap : ts.map (clampTask r) = ts.map Repaired.clean := List.map_congr_left h
  simp [clampDurations, hmap, Repaired.clean, Function.comp_def]

/-- Without overlays there is nothing to clamp. -/
theorem clampDurations_of_no_overlay {ts : Plan T} (h : ts.count .overlayVideo = 0) :
    clampDurations r ts = .clean ts := by
  apply clampDurations_of_clean
  intro t ht
  exact clampTask_of_not_overlay r (Bool.eq_false_iff.mpr (List.countP_eq_zero.mp h t ht))

end

variable {r : InsertRules Rat}

/-- If the task is an overlay, its end is the one that the rules give it. -/
def Settled (r : InsertRules Rat) (t : Task Rat) : Prop :=
  ∀ p, t.op = .overlayVideo p → p.stop = some (r.settledEnd p)

theorem clampTask_of_settled {t : Task Rat} (h : Settled r t) : clampTask r t = .clean t := by
  obtain ⟨op, output, inputs⟩ := t
  cases op with
  | overlayVideo p =>
    have hp : p.stop = some (r.settledEnd p) := h p rfl
    simp [clampTask, ← hp]
  | _ => rfl

theorem settled_clampTask (t : Task Rat) : Settled r (clampTask r t).plan := by
  obtain ⟨op, output, inputs⟩ := t
  cases op with
  | overlayVideo p =>
    simp only [clampTask]
    split_ifs with hstop
    · rintro q ⟨⟩
      exact beq_iff_eq.mp hstop
    · rintro q ⟨⟩
      exact congrArg some (r.settledEnd_settledEnd p).symm
  | _ => exact nofun

theorem clampDurations_of_settled {ts : Plan Rat} (h : ∀ t ∈ ts, Settled r t) :
    clampDurations r ts = .clean ts :=
  clampDurations_of_clean fun t ht => clampTask_of_settled (h t ht)

theorem settled_clampDurations (ts : Plan Rat) :
    ∀ t ∈ (clampDurations r ts).plan, Settled r t := by
  simp only [clampDurations, List.map_map, List.forall_mem_map]
  intro t _
  exact settled_clampTask t

/-! ## Number -/

section
variable {T : Type}

theorem splitInserts_sublist (n : Nat) (ts : Plan T) : (splitInserts n ts).1.Sublist ts := by
  fun_induction splitInserts n ts with
  | case1 => exact List.Sublist.slnil
  | case2 t rest _ kept removed heq ih => exact (heq ▸ ih).cons t
  | case3 t rest _ n kept removed heq ih => exact (heq ▸ ih).cons_cons t
  | case4 n t rest _ kept removed heq ih => exact (heq ▸ ih).cons_cons t

theorem count_splitInserts (n : Nat) (ts : Plan T) :
    count .overlayVideo (splitInserts n ts).1 = min n (ts.count .overlayVideo) := by
  fun_induction splitInserts n ts with
  | case1 => simp [count]
  | case2 t rest ht kept removed heq ih => simp_all [count]
  | case3 t rest ht n kept removed heq ih =>
    rw [heq] at ih
    simp only [count, List.countP_cons_of_pos ht] at ih ⊢
    omega
  | case4 n t rest ht kept removed heq ih =>
    rw [heq] at ih
    simp only [count, List.countP_cons_of_neg ht] at ih ⊢
    exact ih

/-- Orphans are fetches, so that no overlay is among them. -/
theorem orphan?_of_overlay {kept removed : Plan T} {t : Task T}
    (h : t.isKind .overlayVideo = true) : orphan? kept removed t = none := by
  have hfetch : t.isFetch = false := Task.isFetch_of_isKind h
  simp [orphan?, hfetch]

theorem truncateInserts_of_count_le {n : Nat} {ts : Plan T}
    (h : ts.count .overlayVideo ≤ n) : truncateInserts n ts = .clean ts := by
  rw [truncateInserts, if_pos h]

theorem count_truncateInserts (n : Nat) (ts : Plan T) :
    (truncateInserts n ts).plan.count .overlayVideo = min n (ts.count .overlayVideo) := by
  by_cases h : ts.count .overlayVideo ≤ n
  · rw [truncateInserts_of_count_le h, min_eq_right h]
    rfl
  · rw [truncateInserts, if_neg h, ← count_splitInserts]
    simp only [count, List.countP_map, List.countP_filter]
    apply List.countP_congr
    intro t _
    constructor
    · intro ht
      exact (Bool.and_eq_true_iff.mp ht).1
    · intro ht
      exact Bool.and_eq_true_iff.mpr ⟨ht, by rw [orphan?_of_overlay ht]; rfl⟩

/-- A task that stays does what it did, under the name it had. -/
theorem mem_truncateInserts {n : Nat} {ts : Plan T} {t : Task T}
    (h : t ∈ (truncateInserts n ts).plan) :
    ∃ t' ∈ ts, t.op = t'.op ∧ t.output = t'.output := by
  by_cases hle : ts.count .overlayVideo ≤ n
  · rw [truncateInserts_of_count_le hle] at h
    exact ⟨t, h, rfl, rfl⟩
  · rw [truncateInserts, if_neg hle] at h
    obtain ⟨t', ht', rfl⟩ := List.mem_map.mp h
    exact ⟨t', (splitInserts_sublist n ts).mem (List.mem_filter.mp ht').1, rfl, rfl⟩

end

end Plan

end Montage
