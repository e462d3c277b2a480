import Montage.Proofs.Plan.Windows

/-!
# References to removed overlays

When overlays beyond the greatest number are removed, the names that they gave are dropped from the
inputs of the tasks that stay, and fetches go to which nothing refers any more. Main statement:
what is left refers to a name that only removed overlays gave exactly where an overlay shows it as
its clip or its image, and a reference to a name that is still given is dropped exactly where a
removed overlay gave that name as well. In a plan without issues of names the first can happen with
images alone, and the second not at all.
-/

namespace Montage

namespace Plan

/-! ## What is left of a plan -/

section
variable {T : Type} {n : Nat} {ts : Plan T} {t : Task T} {name : String}

/-- The names that the overlays behind the first `n` give. -/
def gone (n : Nat) (ts : Plan T) : List String := names (splitInserts n ts).2

/-- The tasks that stay without the overlays behind the first `n`, each as it was. -/
def staying (n : Nat) (ts : Plan T) : Plan T :=
  (splitInserts n ts).1.filter fun t =>
    (orphan? (splitInserts n ts).1 (splitInserts n ts).2 t).isNone

theorem truncateInserts_plan (h : n < ts.count .overlayVideo) :
    (truncateInserts n ts).plan = (staying n ts).map (dropInputs (gone n ts)) := by
  rw [truncateInserts_plan_of_lt (Nat.not_le_of_lt h), List.filter_map]
  rfl

theorem names_truncateInserts (h : n < ts.count .overlayVideo) :
    names (truncateInserts n ts).plan = names (staying n ts) := by
  rw [truncateInserts_plan h, names_map_dropInputs]

/-- What a task that stays refers to is given by the same tasks as before: a fetch goes only if
nothing refers to it. -/
theorem mem_names_staying (ht : t ∈ staying n ts) (hname : name ∈ t.referencedNames) :
    name ∈ names (staying n ts) ↔ name ∈ names (splitInserts n ts).1 := by
  constructor
  · intro hgiven
    exact (names_sublist List.filter_sublist).subset hgiven
  · intro hgiven
    obtain ⟨u, hu, houtput⟩ := mem_names.mp hgiven
    have hread : ∃ v ∈ (splitInserts n ts).1, name ∈ v.referencedNames :=
      ⟨t, (List.mem_filter.mp ht).1, hname⟩
    refine mem_names.mpr ⟨u, List.mem_filter.mpr ⟨hu, ?_⟩, houtput⟩
    simp [orphan?, houtput, hread]

/-- Where each name is given once, no name is given by a removed overlay and another task. -/
theorem not_mem_gone (h : (names ts).Nodup) (hname : name ∈ names (splitInserts n ts).1) :
    name ∉ gone n ts := by
  intro hgone
  have hperm : (names (splitInserts n ts).1 ++ gone n ts).Perm (names ts) := by
    have hsplit := (splitInserts_perm n ts).filterMap Task.output
    rwa [List.filterMap_append] at hsplit
  exact (List.nodup_append.mp (hperm.nodup_iff.mpr h)).2.2 name hname name hgone rfl

/-! ## References -/

/-- In the truncated plan something refers to a name that only removed overlays gave. -/
def Dangles (n : Nat) (ts : Plan T) (name : String) : Prop :=
  name ≠ sourceName ∧ name ∈ gone n ts ∧ name ∉ names (splitInserts n ts).1 ∧
    ∃ u ∈ (truncateInserts n ts).plan, name ∈ u.referencedNames

instance (n : Nat) (ts : Plan T) (name : String) : Decidable (ts.Dangles n name) :=
  inferInstanceAs (Decidable (_ ∧ _ ∧ _ ∧ _))

/-- The tasks that stay refer as often as before to each name that the truncated plan gives. -/
def KeepsReferences (n : Nat) (ts : Plan T) : Prop :=
  List.Forall₂ (fun t u => ∀ name ∈ names (truncateInserts n ts).plan,
    u.referencedNames.count name = t.referencedNames.count name)
    (staying n ts) (truncateInserts n ts).plan

instance (n : Nat) (ts : Plan T) : Decidable (ts.KeepsReferences n) :=
  inferInstanceAs (Decidable (List.Forall₂ _ _ _))

theorem mem_referencedNames_dropInputs {gone : List String} (hname : name ∈ gone) :
    name ∈ (dropInputs gone t).referencedNames ↔ t.shown? = some name := by
  have hinputs : name ∉ (dropInputs gone t).inputs := by simp [dropInputs, hname]
  rw [Task.referencedNames_eq, List.mem_append, or_iff_right hinputs, Option.mem_toList]
  rfl

theorem count_referencedNames_dropInputs {gone : List String} :
    (dropInputs gone t).referencedNames.count name = t.referencedNames.count name ↔
      (name ∈ t.inputs → name ∉ gone) := by
  have hshown : (dropInputs gone t).shown? = t.shown? := rfl
  rw [Task.referencedNames_eq, Task.referencedNames_eq, List.count_append, List.count_append,
    hshown, Nat.add_right_cancel_iff]
  by_cases hgone : name ∈ gone
  · have hnone : name ∉ (dropInputs gone t).inputs := by simp [dropInputs, hgone]
    rw [List.count_eq_zero.mpr hnone, eq_comm, List.count_eq_zero]
    tauto
  · have hkept : (dropInputs gone t).inputs.count name = t.inputs.count name :=
      List.count_filter (by simpa using hgone)
    tauto

/-- Among the inputs no name of a removed overlay is left. -/
theorem dangles_iff (h : n < ts.count .overlayVideo) : ts.Dangles n name ↔
    name ≠ sourceName ∧ name ∈ gone n ts ∧ name ∉ names (splitInserts n ts).1 ∧
      ∃ t ∈ staying n ts, t.shown? = some name := by
  unfold Dangles
  rw [truncateInserts_plan h]
  refine and_congr_right fun _ => and_congr_right fun hgone => and_congr_right fun _ => ?_
  simp only [List.mem_map, exists_exists_and_eq_and, mem_referencedNames_dropInputs hgone]

theorem keepsReferences_iff (h : n < ts.count .overlayVideo) : ts.KeepsReferences n ↔
    ∀ t ∈ staying n ts, ∀ name ∈ t.inputs, name ∈ gone n ts →
      name ∉ names (splitInserts n ts).1 := by
  unfold KeepsReferences
  rw [names_truncateInserts h, truncateInserts_plan h, List.forall₂_map_right_iff,
    List.forall₂_same]
  refine forall₂_congr fun t ht => ?_
  simp only [count_referencedNames_dropInputs]
  constructor
  · intro hkeeps name hname hgone hgiven
    have hreferenced : name ∈ t.referencedNames := List.mem_append_left _ hname
    exact hkeeps name ((mem_names_staying ht hreferenced).mpr hgiven) hname hgone
  · intro hapart name hgiven hname hgone
    have hreferenced : name ∈ t.referencedNames := List.mem_append_left _ hname
    exact hapart name hname hgone ((mem_names_staying ht hreferenced).mp hgiven)

/-! ## Plans without issues of names -/

theorem keepsReferences_of_distinct (h : n < ts.count .overlayVideo)
    (hdistinct : (names ts).Nodup) : ts.KeepsReferences n := by
  apply (keepsReferences_iff h).mpr
  intro t _ name _ hgone hgiven
  exact not_mem_gone hdistinct hgiven hgone

/-- A clip is given before it is shown, and so is no name of a removed overlay. -/
theorem Dangles.mem_images (h : n < ts.count .overlayVideo) (hdistinct : (names ts).Nodup)
    (hreads : ReadsBehind [] [] ts) (hdangles : ts.Dangles n name) :
    name ∈ images (staying n ts) := by
  obtain ⟨hsource, hgone, -, t, ht, hshown⟩ := (dangles_iff h).mp hdangles
  cases hop : t.op with
  | overlayVideo p =>
    obtain rfl : p.clip = name := by simpa [Task.shown?, hop] using hshown
    obtain hclip | hclip := clip_not_mem_removed hreads (by simpa using hdistinct)
      (List.mem_filter.mp ht).1 hop
    · exact absurd hclip hsource
    · exact absurd hgone hclip
  | addImageOverlay p =>
    obtain rfl : p.image = name := by simpa [Task.shown?, hop] using hshown
    exact mem_images ht hop
  | _ => simp [Task.shown?, hop] at hshown

end

/-! ## The repair -/

section
variable {T : Type} [TimeScale T]

/-- The plan with its fetches named and its overlays as long as the rules allow. -/
def timed (r : InsertRules T) (ts : Plan T) : Plan T :=
  (clampDurations r ts.nameFetches.plan).plan

theorem count_timed (r : InsertRules T) (ts : Plan T) :
    (ts.timed r).count .overlayVideo = ts.count .overlayVideo := by
  rw [timed, count_clampDurations, nameFetches, count_nameFrom]

theorem names_clampDurations (r : InsertRules T) (ts : Plan T) :
    names (clampDurations r ts).plan = names ts := by
  simp only [clampDurations, List.map_map]
  exact names_map (clampTask_output r) ts

theorem names_timed_nodup (r : InsertRules T) {ts : Plan T} (h : (names ts).Nodup) :
    (names (ts.timed r)).Nodup := by
  rw [timed, names_clampDurations]
  exact names_nameFrom_nodup 0 0 (names_subset_declaredNames ts) h

theorem ReadsBehind.timed (r : InsertRules T) {all : Plan T} {given : List String} {ts : Plan T}
    (h : ReadsBehind all given ts) : ReadsBehind all given (ts.timed r) := by
  have hnamed : ReadsBehind all given ts.nameFetches.plan :=
    h.nameFrom (List.Subset.refl _) (fun _ _ => List.Subset.refl _) _ 0 0
  simp only [Plan.timed, Plan.clampDurations, List.map_map]
  exact hnamed.map (List.Subset.refl _) (clampTask_output r) fun t _ =>
    reads_clampTask_subset r all t

/-- With more overlays than the rules allow, there is no assembly to repair. -/
theorem repair_plan_of_lt (r : InsertRules T) {ts : Plan T}
    (h : r.maxInserts < ts.count .overlayVideo) :
    (ts.repair r).plan = (truncateInserts r.maxInserts (ts.timed r)).plan := by
  have hcount : ts.nameFetches.plan.count .overlayVideo = ts.count .overlayVideo :=
    count_nameFrom ts.declaredNames 0 0 ts
  have hassembled : Assembled ts.nameFetches.plan := assembled_of_overlay (by omega)
  simp only [repair, Repaired.andThen, repairAssembly_of_assembled hassembled, Repaired.clean,
    Plan.timed]

/-- A plan with more overlays than the rules allow is truncated, as it is or with its names and ends
set right. A name that only removed overlays gave is then still referred to exactly where something
that stays shows it, and all references to names that are still given are kept exactly if no task
that stays has an input that a removed overlay gives and something else as well. A plan without
issues of names keeps them all, and nothing but images refers to what is gone. -/
theorem references_of_truncated (r : InsertRules T) {ts : Plan T}
    (h : r.maxInserts < ts.count .overlayVideo) :
    (ts.repair r).plan = (truncateInserts r.maxInserts (ts.timed r)).plan ∧
    ∀ us ∈ [ts, ts.timed r],
      (∀ name, us.Dangles r.maxInserts name ↔ name ≠ sourceName ∧ name ∈ gone r.maxInserts us ∧
        name ∉ names (splitInserts r.maxInserts us).1 ∧
          ∃ t ∈ staying r.maxInserts us, t.shown? = some name) ∧
      (us.KeepsReferences r.maxInserts ↔
        ∀ t ∈ staying r.maxInserts us, ∀ name ∈ t.inputs, name ∈ gone r.maxInserts us →
          name ∉ names (splitInserts r.maxInserts us).1) ∧
      ((∀ e ∈ ts.issues, e.isNaming = false) → us.KeepsReferences r.maxInserts ∧
        ∀ name, us.Dangles r.maxInserts name → name ∈ images (staying r.maxInserts us)) := by
  refine ⟨repair_plan_of_lt r h, fun us hus => ?_⟩
  have hcount : r.maxInserts < us.count .overlayVideo := by
    obtain rfl | rfl : us = ts ∨ us = ts.timed r := by simpa using hus
    · exact h
    · rwa [count_timed]
  refine ⟨fun name => dangles_iff hcount, keepsReferences_iff hcount, fun hissues => ?_⟩
  have hbackward := backward_iff.mpr hissues
  have hreads : ReadsBehind [] [] ts :=
    hbackward.reads.mono (List.Subset.refl _) (List.nil_subset _)
  obtain ⟨hdistinct, hbehind⟩ : (names us).Nodup ∧ ReadsBehind [] [] us := by
    obtain rfl | rfl : us = ts ∨ us = ts.timed r := by simpa using hus
    · exact ⟨hbackward.distinct, hreads⟩
    · exact ⟨names_timed_nodup r hbackward.distinct, hreads.timed r⟩
  exact ⟨keepsReferences_of_distinct hcount hdistinct,
    fun name hdangles => hdangles.mem_images hcount hdistinct hbehind⟩

end

/-- The second overlay is shown as an image by another task. -/
def picturedPlan : Plan Rat :=
  [⟨.fetchVideo ⟨"city", [], 30, "landscape"⟩, some "a", []⟩,
    ⟨.overlayVideo ⟨10, some (29 / 2), "a"⟩, none, []⟩,
    ⟨.overlayVideo ⟨30, some (69 / 2), "a"⟩, some "v", []⟩,
    ⟨.addImageOverlay ⟨"v", "top-left", none, none, 1⟩, none, []⟩]

/-- In addition, what resizes the video gives it the name of the third overlay. -/
def sharedPlan : Plan Rat :=
  picturedPlan ++
    [⟨.overlayVideo ⟨50, some (109 / 2), "a"⟩, some "w", []⟩,
      ⟨.resize ⟨640, none⟩, some "w", []⟩,
      ⟨.changeSpeed ⟨2⟩, none, []⟩,
      ⟨.trim ⟨1, none⟩, none, ["w"]⟩]

/-- Rules that allow one insertion. -/
def singleInsert : InsertRules Rat := { InsertRules.default with maxInserts := 1 }

theorem references_of_truncated_picturedPlan :
    singleInsert.maxInserts < picturedPlan.count .overlayVideo ∧
      (∀ e ∈ picturedPlan.issues, e.isNaming = false) ∧
      (picturedPlan.timed singleInsert).KeepsReferences 1 ∧
      picturedPlan.Dangles 1 "v" ∧ ¬ picturedPlan.Dangles 1 "a" := by
  have h : singleInsert.maxInserts < picturedPlan.count .overlayVideo := by decide +kernel
  have hissues : ∀ e ∈ picturedPlan.issues, e.isNaming = false := by decide +kernel
  obtain ⟨-, hall⟩ := references_of_truncated singleInsert h
  have hplan := hall picturedPlan List.mem_cons_self
  have htimed := hall (picturedPlan.timed singleInsert) (by simp)
  refine ⟨h, hissues, (htimed.2.2 hissues).1, (hplan.1 "v").mpr (by decide +kernel), ?_⟩
  intro hdangles
  exact absurd ((hplan.2.2 hissues).2 "a" hdangles) (by decide +kernel)

/-- The reference to the resized video goes with the third overlay, and the image still refers to
the second one, which is gone. -/
theorem references_of_truncated_sharedPlan :
    singleInsert.maxInserts < sharedPlan.count .overlayVideo ∧
      ∀ us ∈ [sharedPlan, sharedPlan.timed singleInsert],
        us.Dangles singleInsert.maxInserts "v" ∧ ¬ us.KeepsReferences singleInsert.maxInserts := by
  decide +kernel

end Plan

end Montage
