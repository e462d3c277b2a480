import Montage.Proofs.Plan.Descent

/-!
# What a reordered assembly joins

Where the gaps between the parts are not filled, parts and clips are joined by turns. Main
statement: what is joined then are all parts of the source and all fetched clips before the joining,
each as often as it is given. Of what was joined nothing is missing, as it consists of parts and
clips alone. But it may be less than all of them, and it may be joined more than once, and so it is
merely reordered exactly if each part and each clip was joined as often as it is given.
-/

namespace Montage

theorem Assembly.inputs_subset_of_foreign? {T : Type} {a : Assembly T}
    (h : a.foreign?.isSome = false) : a.inputs ⊆ a.inOrder.inputs := by
  intro name hname
  have hknown := List.find?_isSome.not.mp (Bool.eq_false_iff.mp h)
  push Not at hknown
  have hgiven := hknown name hname
  apply (mem_alternate a.trimNames a.clips).mpr
  simpa [or_iff_not_imp_left] using hgiven

namespace Plan
variable {T : Type}

/-- A task that is no fetch stands where it stood before the fetches were named. -/
theorem getElem?_of_nameFetches {ts : Plan T} {i : Nat} {t : Task T}
    (h : ts.nameFetches.plan[i]? = some t) (hfetch : t.isFetch = false) : ts[i]? = some t := by
  have hnames : List.Forall₂ (fun m q => m.2 = q.2 ∧
      Renamed ts.nameFetches.corrections m.2 m.1 q.1) ts.zipIdx ts.nameFetches.plan.zipIdx :=
    forall₂_nameFrom ts.declaredNames 0 0 ts
  have hlength : ts.length = ts.nameFetches.plan.length := by simpa using hnames.length_eq
  obtain ⟨hi, rfl⟩ := List.getElem?_eq_some_iff.mp h
  have hrenamed := (hnames.get (i := i) (by simpa using hlength ▸ hi) (by simpa using hi)).2
  simp only [List.get_eq_getElem, List.getElem_zipIdx] at hrenamed
  rw [List.getElem?_eq_getElem (hlength ▸ hi), hrenamed.eq hfetch]

variable [TimeScale T]

/-- What is reported as reordered is an assembly of parts and clips alone. -/
theorem exists_of_reorderedConcat {ts : Plan T} {inputs : List String}
    (h : .reorderedConcat inputs ∈ (repairAssembly ts).corrections) :
    ∃ a before t behind, Assembly.SplitsAt a ts before t behind ∧ a.foreign?.isSome = false ∧
      inputs = a.inOrder.inputs ∧
      (repairAssembly ts).plan = before ++ { t with inputs } :: behind := by
  have hrepairs : ¬ Assembled ts := by
    intro hassembled
    rw [repairAssembly_of_assembled hassembled] at h
    exact absurd h List.not_mem_nil
  have hmended := mended_repairAssembly ts
  generalize repairAssembly ts = mended at h hmended ⊢
  cases hmended with
  | assembled hassembled => exact absurd hassembled hrepairs
  | filled _ _ _ => simp [Assembly.fillGaps] at h
  | @ordered a before behind t hs _ _ =>
    cases List.mem_singleton.mp h
    refine ⟨a, before, t, behind, hs, Bool.eq_false_iff.mpr fun hforeign => ?_, rfl, rfl⟩
    -- What joins something else as well is left as it is.
    apply hrepairs
    intro b hb
    obtain rfl := Option.some.inj ((Assembly.find?_of_splitsAt hs).symm.trans hb)
    exact Or.inl hforeign

/-- Without overlays in it, a plan with its assembly repaired is repaired. -/
theorem repair_plan_of_no_overlay {r : InsertRules T} {ts : Plan T}
    (h : (repairAssembly ts.nameFetches.plan).plan.count .overlayVideo = 0) :
    (ts.repair r).plan = (repairAssembly ts.nameFetches.plan).plan := by
  simp only [repair, Repaired.andThen, clampDurations_of_no_overlay r h, Repaired.clean,
    truncateInserts_of_count_le (h.le.trans (Nat.zero_le r.maxInserts))]

/-- If an assembly is reordered, all parts and clips before it are joined, and these are what was
joined exactly if it held each of them as often as it is given. -/
theorem repair_reorders_iff (r : InsertRules T) (ts : Plan T) {inputs : List String}
    (h : .reorderedConcat inputs ∈ (ts.repair r).corrections) :
    ∃ a before t behind, Assembly.SplitsAt a ts.nameFetches.plan before t behind ∧
      ts[a.position]? = some t ∧
      (ts.repair r).plan = before ++ { t with inputs } :: behind ∧
      inputs.Perm (a.trimNames ++ a.clips) ∧ t.inputs ⊆ inputs ∧
      (inputs.Perm t.inputs ↔
        ∀ name, t.inputs.count name = a.trimNames.count name + a.clips.count name) := by
  obtain ⟨a, before, t, behind, hs, hforeign, rfl, hplan⟩ :=
    exists_of_reorderedConcat (OfAssembly.reorderedConcat.mem_repairAssembly h)
  have hsame : a.inputs = t.inputs := by rw [hs.eq]; rfl
  have hperm : a.inOrder.inputs.Perm (a.trimNames ++ a.clips) :=
    Assembly.alternate_perm a.trimNames a.clips
  refine ⟨a, before, t, behind, hs, ?_, ?_, hperm, ?_, ?_⟩
  · apply getElem?_of_nameFetches
    · rw [hs.split, hs.position_eq, List.getElem?_append_right le_rfl, Nat.sub_self]
      rfl
    · exact Task.isFetch_of_isKind (Bool.and_eq_true_iff.mp hs.joins).1
  · rw [repair_plan_of_no_overlay (hplan ▸ hs.ordered.no_overlay), hplan]
  · exact hsame ▸ Assembly.inputs_subset_of_foreign? hforeign
  · calc a.inOrder.inputs.Perm t.inputs ↔ t.inputs.Perm (a.trimNames ++ a.clips) :=
          ⟨fun h => h.symm.trans hperm, fun h => hperm.trans h.symm⟩
      _ ↔ ∀ name, t.inputs.count name = (a.trimNames ++ a.clips).count name := List.perm_iff_count
      _ ↔ _ := by simp only [List.count_append]

/-- Two parts and two clips. One part is joined with one clip, before and behind it, and the others
are joined to that. -/
def choosyPlan : Plan Rat :=
  [⟨.trim ⟨5, none⟩, some "a", [sourceName]⟩,
    ⟨.trim ⟨9, none⟩, some "b", [sourceName]⟩,
    ⟨.fetchVideo ⟨"city", [], 30, "landscape"⟩, some "x", []⟩,
    ⟨.fetchVideo ⟨"sea", [], 30, "landscape"⟩, some "y", []⟩,
    ⟨.concat ⟨[]⟩, some "v", ["x", "a", "x"]⟩,
    ⟨.concat ⟨[]⟩, none, ["v", "b", "y"]⟩]

theorem repair_choosyPlan (r : InsertRules Rat) :
    .reorderedConcat ["a", "x", "b", "y"] ∈ (choosyPlan.repair r).corrections := by
  have hassembly : (repairAssembly (nameFetches choosyPlan).plan).corrections =
      [.reorderedConcat ["a", "x", "b", "y"]] := rfl
  simp [repair, Repaired.andThen, hassembly]

theorem repair_reorders_iff_choosyPlan :
    .reorderedConcat ["a", "x", "b", "y"] ∈ (choosyPlan.repair .default).corrections ∧
      ∃ a before t behind, Assembly.SplitsAt a (nameFetches choosyPlan).plan before t behind ∧
        choosyPlan[a.position]? = some t ∧
        (choosyPlan.repair .default).plan =
          before ++ { t with inputs := ["a", "x", "b", "y"] } :: behind ∧
        ["a", "x", "b", "y"].Perm (a.trimNames ++ a.clips) ∧ t.inputs ⊆ ["a", "x", "b", "y"] ∧
        (["a", "x", "b", "y"].Perm t.inputs ↔
          ∀ name, t.inputs.count name = a.trimNames.count name + a.clips.count name) :=
  ⟨repair_choosyPlan _, repair_reorders_iff _ choosyPlan (repair_choosyPlan _)⟩

/-- The part and the clip that were not joined are joined now, and the clip that was joined twice is
joined once. -/
theorem repair_choosyPlan_adds_and_loses :
    (∀ t ∈ choosyPlan, t.op.flaw?.isNone) ∧
      (choosyPlan.repair .default).corrections = [.reorderedConcat ["a", "x", "b", "y"]] ∧
      choosyPlan[4]?.map Task.inputs = some ["x", "a", "x"] ∧
      (choosyPlan.repair .default).plan[4]?.map Task.inputs = some ["a", "x", "b", "y"] ∧
      ¬ ["a", "x", "b", "y"].Perm ["x", "a", "x"] := by
  refine ⟨by decide +kernel, ?_, by decide +kernel, by decide +kernel, by decide⟩
  rfl

end Plan

end Montage
