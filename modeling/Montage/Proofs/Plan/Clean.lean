import Montage.Proofs.Plan.Backward

/-!
# A repair reports what it changes

Main statement: a repair reports nothing exactly if the plan comes out as it went in. Both say that
every stage finds its work done. For the report this is so stage by stage. For the plan it takes an
argument, as a later stage could undo what an earlier one did: names, ends and the number of
overlays are right in whatever comes out, but an assembly is looked at before overlays are removed.
There the joining tasks are counted. A rewritten assembly has one less, and no stage adds one.
-/

namespace Montage

/-! ## Joining tasks -/

section
variable {T : Type}

theorem Plan.count_truncateInserts_le (n : Nat) (ts : Plan T) (k : Kind) :
    (truncateInserts n ts).plan.count k ≤ ts.count k := by
  by_cases h : ts.count .overlayVideo ≤ n
  · rw [truncateInserts_of_count_le h]
    exact le_rfl
  · have hdrop : count k ((splitInserts n ts).1.map (dropInputs (names (splitInserts n ts).2))) =
        count k (splitInserts n ts).1 := by
      rw [count, List.countP_map]
      rfl
    rw [truncateInserts_plan_of_lt h]
    calc _ ≤ count k ((splitInserts n ts).1.map (dropInputs (names (splitInserts n ts).2))) :=
          List.filter_sublist.countP_le
      _ = count k (splitInserts n ts).1 := hdrop
      _ ≤ ts.count k := (splitInserts_sublist n ts).countP_le

variable [TimeScale T]

/-- Overlays and a part of the source stand where the parts were joined. -/
theorem Assembly.SplitsAt.count_concat_fillGaps_lt {a : Assembly T} {ts before behind : Plan T}
    {t : Task T} (hs : a.SplitsAt ts before t behind) :
    (a.fillGaps ts).plan.count .concat < ts.count .concat := by
  have hjoins : t.isKind .concat = true := (Bool.and_eq_true_iff.mp hs.joins).1
  have hoverlays : a.overlays.countP (Task.isKind .concat) = 0 := by
    apply List.countP_eq_zero.mpr
    intro u hu
    simp [Task.isKind, Task.isKind_iff.mp (isKind_of_mem_overlays hu)]
  have hbounding : [a.bounding].countP (Task.isKind .concat) = 0 := rfl
  have hfilled : (a.fillGaps ts).plan.count .concat ≤
      before.count .concat + behind.count .concat := by
    calc (a.fillGaps ts).plan.count .concat ≤ (a.rebuild ts).count .concat :=
          List.filter_sublist.countP_le
      _ ≤ Plan.count .concat (before ++ ((a.overlays ++ [a.bounding]) ++ behind)) :=
          hs.rebuild_sublist.countP_le
      _ = before.count .concat + behind.count .concat := by
          simp only [Plan.count, List.countP_append, hoverlays, hbounding]
          omega
  have hall : ts.count .concat = before.count .concat + (behind.count .concat + 1) := by
    rw [hs.split, Plan.count, List.countP_append, List.countP_cons_of_pos hjoins]
    rfl
  omega

end

namespace Plan

/-! ## Work that is done -/

/-- Every stage of the repair finds its work done. -/
structure Normal (r : InsertRules Rat) (ts : Plan Rat) : Prop where
  named : Named ts
  assembled : Assembled ts
  settled : ∀ t ∈ ts, Settled r t
  few : ts.count .overlayVideo ≤ r.maxInserts

theorem Normal.repair {r : InsertRules Rat} {ts : Plan Rat} (h : Normal r ts) :
    ts.repair r = .clean ts :=
  repair_of_normal h.named h.assembled h.settled h.few

theorem named_of_corrections_eq_nil {T : Type} {used : List String} {n i : Nat} {ts : Plan T}
    (h : (nameFrom used n i ts).corrections = []) : Named ts := by
  induction ts generalizing i with
  | nil => exact List.forall_mem_nil _
  | cons t rest ih =>
    simp only [nameFrom] at h
    split_ifs at h with hname
    refine named_cons.mpr ⟨fun hfetch => ?_, ih h⟩
    rw [hfetch, Bool.true_and, Option.isNone_iff_eq_none] at hname
    exact Option.isSome_iff_ne_none.mpr hname

variable {r : InsertRules Rat} {ts : Plan Rat}

theorem settled_of_corrections_eq_nil (h : (clampDurations r ts).corrections = []) :
    ∀ t ∈ ts, Settled r t := by
  intro t ht p hop
  have hnone : (clampTask r t).corrections = [] :=
    List.flatMap_eq_nil_iff.mp h _ (List.mem_map_of_mem ht)
  simp only [clampTask, hop] at hnone
  split_ifs at hnone with hstop
  exact beq_iff_eq.mp hstop

theorem count_le_of_corrections_eq_nil {T : Type} {n : Nat} {ts : Plan T}
    (h : (truncateInserts n ts).corrections = []) : ts.count .overlayVideo ≤ n := by
  by_contra hlt
  rw [truncateInserts, if_neg hlt] at h
  exact absurd h (List.cons_ne_nil _ _)

theorem corrections_eq_nil_iff : (ts.repair r).corrections = [] ↔ Normal r ts := by
  constructor
  · intro h
    simp only [repair, Repaired.andThen, List.append_eq_nil_iff, and_assoc] at h
    obtain ⟨hname, hassembly, hclamp, htruncate⟩ := h
    -- Each stage that reports nothing hands on the plan itself.
    have hnamed : Named ts := named_of_corrections_eq_nil hname
    rw [nameFetches_of_named hnamed] at hassembly hclamp htruncate
    have hassembled : Assembled ts := assembled_of_corrections_eq_nil hassembly
    simp only [Repaired.clean, repairAssembly_of_assembled hassembled] at hclamp htruncate
    have hsettled : ∀ t ∈ ts, Settled r t := settled_of_corrections_eq_nil hclamp
    rw [clampDurations_of_settled hsettled] at htruncate
    exact ⟨hnamed, hassembled, hsettled, count_le_of_corrections_eq_nil htruncate⟩
  · intro h
    rw [h.repair]
    rfl

/-! ## Plans that come out as they went in -/

/-- An assembly that was rewritten would be a joining task short in the end, and one that was put in
order would still be so, as there are no overlays to clamp or to remove. -/
theorem assembled_of_plan_eq (hnamed : Named ts) (h : (ts.repair r).plan = ts) :
    Assembled ts := by
  rw [repair_plan, clamped, nameFetches_of_named hnamed, Repaired.clean] at h
  have hmended := mended_repairAssembly ts
  generalize repairAssembly ts = mended at h hmended
  cases hmended with
  | assembled hassembled => exact hassembled
  | @filled a _ _ _ hs _ _ =>
    have hle := count_truncateInserts_le r.maxInserts
      (clampDurations r (a.fillGaps ts).plan).plan .concat
    rw [h, count_clampDurations] at hle
    exact absurd hle (Nat.not_le_of_lt hs.count_concat_fillGaps_lt)
  | @ordered a before behind t hs _ hinputs =>
    have hnone := hs.ordered.no_overlay
    have hfew := hnone.le.trans (Nat.zero_le r.maxInserts)
    simp only [clampDurations_of_no_overlay r hnone, Repaired.clean,
      truncateInserts_of_count_le hfew] at h
    have htask := (List.cons.inj (List.append_cancel_left (h.trans hs.split))).1
    have hjoined : a.inputs = t.inputs := by rw [hs.eq]; rfl
    exact absurd ((congrArg Task.inputs htask).trans hjoined.symm) hinputs

theorem plan_eq_iff : (ts.repair r).plan = ts ↔ Normal r ts := by
  constructor
  · intro h
    have hnamed : Named (ts.repair r).plan := named_repair ts
    have hsettled : ∀ t ∈ (ts.repair r).plan, Settled r t := settled_repair ts
    have hfew := count_repair_le (r := r) ts
    rw [h] at hnamed hsettled hfew
    exact ⟨hnamed, assembled_of_plan_eq hnamed h, hsettled, hfew⟩
  · intro h
    rw [h.repair]
    rfl

variable (r ts) in
/-- A repair reports nothing exactly if it changes nothing. -/
theorem repair_clean_iff : (ts.repair r).corrections = [] ↔ (ts.repair r).plan = ts :=
  corrections_eq_nil_iff.trans plan_eq_iff.symm

end Plan

end Montage
