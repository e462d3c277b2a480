import Montage.Proofs.Plan.Repair

/-!
# A repaired plan reads what it gives

Main statement: if a plan has no issues of names, neither has the repaired plan, with insertions
for slots or without. Each stage keeps the names of a plan apart and its reads behind what gives
them. New names are free ones; overlays in the place of an assembly stand where the joining stood,
behind the fetches of their clips; and nothing is removed that is still read. The image of an
overlay is the one exception. It may be a path, and a free name may happen to be spelled like it.
-/

namespace Montage

namespace Plan
variable {T : Type}

/-! ## Fetches of no use -/

/-- A task is a fetch with a name to which nothing in a plan refers. -/
def Unread (us : Plan T) (t : Task T) : Prop :=
  t.isFetch = true ∧ ∃ name, t.output = some name ∧ ∀ u ∈ us, name ∉ u.referencedNames

theorem Unread.mono {us vs : Plan T} {t : Task T} (h : Unread us t)
    (hrefers : ∀ v ∈ vs, ∃ u ∈ us, v.referencedNames ⊆ u.referencedNames) : Unread vs t := by
  obtain ⟨hfetch, name, houtput, hunread⟩ := h
  refine ⟨hfetch, name, houtput, fun v hv hname => ?_⟩
  obtain ⟨u, hu, hsub⟩ := hrefers v hv
  exact hunread u hu (hsub hname)

theorem unread_of_orphan? {kept removed : Plan T} {t : Task T}
    (h : (orphan? kept removed t).isNone = false) : Unread kept t := by
  cases houtput : t.output with
  | none => simp [orphan?, houtput] at h
  | some name =>
    simp [orphan?, houtput] at h
    exact ⟨h.1.1, name, houtput, h.2⟩

theorem unread_of_not_useful [TimeScale T] {a : Assembly T} {ts : Plan T} {t : Task T}
    (h : a.useful ts t = false) : Unread (a.rebuild ts) t := by
  cases houtput : t.output with
  | none => simp [Assembly.useful, Assembly.unused?, houtput] at h
  | some name =>
    obtain ⟨⟨⟨hkind, -⟩, -⟩, hunread⟩ : ((t.isKind .fetchVideo = true ∧ _) ∧ _) ∧
        ∀ u ∈ a.rebuild ts, name ∉ u.referencedNames := by
      simpa [Assembly.useful, Assembly.unused?, houtput, and_assoc] using h
    exact ⟨Task.isFetch_of_isKind hkind, name, houtput, hunread⟩

/-! ## Names for fetches -/

theorem ReadsBehind.nameFrom {all all' ts : Plan T} {given given' : List String}
    (h : ReadsBehind all given ts) (hgiven : given ⊆ given')
    (hreads : ∀ t ∈ ts, all'.reads t ⊆ all.reads t) (used : List String) (n i : Nat) :
    ReadsBehind all' given' (nameFrom used n i ts).plan := by
  induction ts generalizing given given' used n i with
  | nil => trivial
  | cons t rest ih =>
    have hhead : ∀ name ∈ all'.reads t, name = sourceName ∨ name ∈ given' := fun name hname =>
      (h.1 name (hreads t List.mem_cons_self hname)).imp_right (@hgiven name)
    have hrest (output : Option String) (hsub : t.output.toList ⊆ output.toList)
        (used : List String) (n : Nat) :
        ReadsBehind all' (given' ++ output.toList) (Plan.nameFrom used n (i + 1) rest).plan := by
      apply ih h.2 _ fun u hu => hreads u (List.mem_cons_of_mem t hu)
      exact List.append_subset.mpr ⟨List.subset_append_of_subset_left _ hgiven,
        List.subset_append_of_subset_right _ hsub⟩
    simp only [Plan.nameFrom]
    split_ifs with hname
    · have hnone : t.output = none := by simpa using (Bool.and_eq_true_iff.mp hname).2
      exact ⟨hhead, hrest _ (by simp [hnone]) _ _⟩
    · exact ⟨hhead, hrest _ (List.Subset.refl _) _ _⟩

theorem names_subset_nameFrom (used : List String) (n i : Nat) (ts : Plan T) :
    names ts ⊆ names (nameFrom used n i ts).plan := by
  induction ts generalizing used n i with
  | nil => exact List.Subset.refl _
  | cons t rest ih =>
    simp only [nameFrom]
    split_ifs with hname
    · have hnone : t.output = none := by simpa using (Bool.and_eq_true_iff.mp hname).2
      rw [names_cons, names_cons, hnone]
      exact List.subset_append_of_subset_right _ (ih _ _ _)
    · rw [names_cons, names_cons]
      exact List.append_subset.mpr ⟨List.subset_append_left _ _,
        List.subset_append_of_subset_right _ (ih _ _ _)⟩

/-- The images that overlays show. -/
def images (ts : Plan T) : List String :=
  ts.filterMap fun t => match t.op with
    | .addImageOverlay p => some p.image
    | _ => none

theorem mem_images {ts : Plan T} {t : Task T} {p : ImageOverlay T} (ht : t ∈ ts)
    (hop : t.op = .addImageOverlay p) : p.image ∈ images ts :=
  List.mem_filterMap.mpr ⟨t, ht, by rw [hop]⟩

/-- No overlay of `ts` shows an image that is a name in `us` and none in `ts`. -/
def SparesImages (ts us : Plan T) : Prop :=
  ∀ image ∈ images ts, image ∈ names us → image ∈ names ts

theorem SparesImages.reads_subset {ts us : Plan T} (h : SparesImages ts us) {t : Task T}
    (ht : t ∈ ts) : us.reads t ⊆ ts.reads t := by
  intro name hname
  rw [mem_reads_iff] at hname ⊢
  obtain hin | hclip | ⟨p, hop, rfl, hgiven⟩ := hname
  · exact Or.inl hin
  · exact Or.inr (Or.inl hclip)
  · exact Or.inr (Or.inr ⟨p, hop, rfl, h p.image (mem_images ht hop) hgiven⟩)

theorem Backward.nameFetches {ts : Plan T} (h : ts.Backward)
    (hspares : SparesImages ts ts.nameFetches.plan) : Backward ts.nameFetches.plan where
  distinct := names_nameFrom_nodup 0 0 (names_subset_declaredNames ts) h.distinct
  reads := h.reads.nameFrom (List.Subset.refl _) (fun _ ht => hspares.reads_subset ht) _ 0 0

/-! ## Insertions for slots -/

section
variable [TimeScale T]

theorem not_mem_names_pairsFor {used : List String} {n : Nat} {slots : List (Slot T)}
    {name : String} (h : name ∈ names (pairsFor used n slots)) : name ∉ used := by
  induction slots generalizing used n with
  | nil => exact absurd h List.not_mem_nil
  | cons s rest ih =>
    obtain hnew | hrest := List.mem_cons.mp h
    · exact hnew ▸ stockName_nextNumber used n
    · exact mt (List.mem_cons_of_mem _) (ih hrest)

theorem names_pairsFor_nodup (used : List String) (n : Nat) (slots : List (Slot T)) :
    (names (pairsFor used n slots)).Nodup := by
  induction slots generalizing used n with
  | nil => exact List.nodup_nil
  | cons s rest ih =>
    apply List.nodup_cons.mpr
    exact ⟨fun hmem => not_mem_names_pairsFor hmem List.mem_cons_self, ih _ _⟩

/-- Each overlay stands behind the fetch of its clip. -/
theorem readsBehind_pairsFor (all : Plan T) (given used : List String) (n : Nat)
    (slots : List (Slot T)) : ReadsBehind all given (pairsFor used n slots) := by
  induction slots generalizing given used n with
  | nil => trivial
  | cons s rest ih =>
    refine ⟨fun name hname => absurd hname List.not_mem_nil, fun name hname => ?_, ih _ _ _⟩
    obtain rfl := List.mem_singleton.mp hname
    exact Or.inr (List.mem_append_right _ (List.mem_singleton_self _))

theorem images_withSlots (slots : List (Slot T)) (ts : Plan T) :
    images (ts.withSlots slots) = images ts := by
  have hpairs (used : List String) (n : Nat) : images (pairsFor used n slots) = [] := by
    induction slots generalizing used n with
    | nil => rfl
    | cons s rest ih => exact ih _ _
  rw [images, Plan.withSlots, List.filterMap_append]
  exact (congrArg (_ ++ ·) (hpairs _ _)).trans (List.append_nil _)

theorem Backward.withSlots {ts : Plan T} (h : ts.Backward) {slots : List (Slot T)}
    (hspares : SparesImages ts (ts.withSlots slots)) : Backward (ts.withSlots slots) where
  distinct := by
    rw [Plan.withSlots, names_append, List.nodup_append]
    refine ⟨h.distinct, names_pairsFor_nodup _ _ _, ?_⟩
    rintro name hname given hgiven rfl
    exact not_mem_names_pairsFor hgiven (names_subset_declaredNames ts hname)
  reads := by
    apply readsBehind_append.mpr
    refine ⟨?_, readsBehind_pairsFor _ _ _ _ _⟩
    have hmap := h.reads.map (f := id) (List.Subset.refl _) (fun _ => rfl)
      fun t ht => hspares.reads_subset ht
    rwa [List.map_id] at hmap

end

end Plan

/-! ## Assemblies -/

namespace Assembly
open Plan
variable {T : Type}

/-- The tasks from position `first` on that are not parts of the source. -/
def without (a : Assembly T) (first : Nat) (ts : Plan T) : Plan T :=
  ((ts.zipIdx first).filter fun m => !a.trims.any (·.position == m.2)).map (·.1)

theorem without_sublist (a : Assembly T) (first : Nat) (ts : Plan T) :
    (a.without first ts).Sublist ts := by
  have hsub := (List.filter_sublist (l := ts.zipIdx first)
    (p := fun m => !a.trims.any (·.position == m.2))).map Prod.fst
  rwa [List.zipIdx_map_fst] at hsub

theorem mem_without (a : Assembly T) (first : Nat) {ts : Plan T} {t : Task T} (h : t ∈ ts) :
    t ∈ a.without first ts ∨ ∃ s ∈ a.trims, (t, s.position) ∈ ts.zipIdx first := by
  rw [← List.zipIdx_map_fst first ts] at h
  obtain ⟨⟨_, i⟩, hmem, rfl⟩ := List.mem_map.mp h
  by_cases hpart : a.trims.any (·.position == i) = true
  · obtain ⟨s, hs, hposition⟩ := List.any_eq_true.mp hpart
    exact Or.inr ⟨s, hs, beq_iff_eq.mp hposition ▸ hmem⟩
  · exact Or.inl (List.mem_map.mpr ⟨_, List.mem_filter.mpr ⟨hmem, by simpa using hpart⟩, rfl⟩)

end Assembly

/-- The task that cuts a part out of the source. -/
def SourceTrim.task {T : Type} (s : SourceTrim T) : Task T :=
  ⟨.trim ⟨s.start, s.stop⟩, some s.name, [sourceName]⟩

namespace Assembly
open Plan
variable {T : Type}

theorem mem_zipIdx_of_mem_trimsFrom {i : Nat} {ts : Plan T} {s : SourceTrim T}
    (h : s ∈ trimsFrom i ts) : (s.task, s.position) ∈ ts.zipIdx i := by
  fun_induction trimsFrom i ts with
  | case1 => exact absurd h List.not_mem_nil
  | case2 i t rest p name houtput hop hinputs ih =>
    obtain rfl | h := List.mem_cons.mp h
    · obtain ⟨op, output, inputs⟩ := t
      simp only at hop houtput hinputs
      simp [SourceTrim.task, hop, houtput, hinputs]
    · exact List.mem_cons_of_mem _ (ih h)
  | case3 i t rest p name _ _ _ ih => exact List.mem_cons_of_mem _ (ih h)
  | case4 i t rest _ ih => exact List.mem_cons_of_mem _ (ih h)

namespace SplitsAt
variable {a : Assembly T} {ts before behind : Plan T} {t u : Task T}

theorem mem_zipIdx_of_mem_trims (hs : a.SplitsAt ts before t behind) {s : SourceTrim T}
    (h : s ∈ a.trims) : (s.task, s.position) ∈ before.zipIdx := by
  rw [hs.eq] at h
  exact mem_zipIdx_of_mem_trimsFrom h

theorem trimNames_subset (hs : a.SplitsAt ts before t behind) : a.trimNames ⊆ names before := by
  intro name hname
  obtain ⟨s, hmem, rfl⟩ := List.mem_map.mp hname
  exact mem_names.mpr ⟨s.task, List.fst_mem_of_mem_zipIdx (hs.mem_zipIdx_of_mem_trims hmem), rfl⟩

theorem exists_of_mem_clips (hs : a.SplitsAt ts before t behind) {name : String}
    (h : name ∈ a.clips) :
    ∃ u ∈ before, u.isKind .fetchVideo = true ∧ u.output = some name := by
  rw [hs.eq] at h
  obtain ⟨u, hu, houtput⟩ := List.mem_filterMap.mp h
  obtain ⟨hmem, hkind⟩ := List.mem_filter.mp hu
  exact ⟨u, hmem, hkind, houtput⟩

theorem clips_subset (hs : a.SplitsAt ts before t behind) : a.clips ⊆ names before := by
  intro name hname
  obtain ⟨u, hu, -, houtput⟩ := hs.exists_of_mem_clips hname
  exact mem_names.mpr ⟨u, hu, houtput⟩

theorem referencedNames_inputs (hs : a.SplitsAt ts before t behind) (inputs : List String) :
    Task.referencedNames { t with inputs } = inputs := by
  have hkind := (Bool.and_eq_true_iff.mp hs.joins).1
  obtain ⟨op, output, old⟩ := t
  cases op with
  | concat p => simp [Task.referencedNames]
  | _ => exact absurd hkind Bool.false_ne_true

end SplitsAt

variable [TimeScale T]

/-- An overlay shows a clip over a gap and reads nothing else, or the source. -/
theorem exists_of_mem_overlays {a : Assembly T} {u : Task T} (h : u ∈ a.overlays) :
    u.output = none ∧ u.inputs ⊆ [sourceName] ∧
      ∃ gap ∈ a.gaps, ∃ clip ∈ a.clips, u.op = (overlay gap clip).op := by
  have hall : ∀ v ∈ List.zipWith overlay a.gaps a.clips, v.output = none ∧ v.inputs = [] ∧
      ∃ gap ∈ a.gaps, ∃ clip ∈ a.clips, v.op = (overlay gap clip).op := by
    intro v hv
    obtain ⟨i, hi, rfl⟩ := List.getElem_of_mem hv
    rw [List.getElem_zipWith]
    exact ⟨rfl, rfl, _, List.getElem_mem _, _, List.getElem_mem _, rfl⟩
  unfold overlays at h
  split at h
  · exact absurd h List.not_mem_nil
  · next v rest heq =>
    rw [heq] at hall
    obtain rfl | hrest := List.mem_cons.mp h
    · obtain ⟨houtput, -, hop⟩ := hall v List.mem_cons_self
      exact ⟨houtput, List.Subset.refl _, hop⟩
    · obtain ⟨houtput, hinputs, hop⟩ := hall u (List.mem_cons_of_mem _ hrest)
      refine ⟨houtput, ?_, hop⟩
      rw [hinputs]
      exact List.nil_subset _

theorem mem_overlays {a : Assembly T} {u : Task T} (h : u ∈ a.overlays) :
    u.output = none ∧ ∀ name ∈ u.referencedNames, name = sourceName ∨ name ∈ a.clips := by
  obtain ⟨houtput, hinputs, gap, -, clip, hclip, hop⟩ := exists_of_mem_overlays h
  refine ⟨houtput, fun name hname => ?_⟩
  rw [Task.referencedNames, hop] at hname
  obtain hname | hname := List.mem_append.mp hname
  · exact Or.inl (List.mem_singleton.mp (hinputs hname))
  · exact Or.inr (List.mem_singleton.mp hname ▸ hclip)

section
variable {a : Assembly T} {ts before behind : Plan T} {t u : Task T}

theorem SplitsAt.rebuild (hs : a.SplitsAt ts before t behind) :
    a.rebuild ts = a.without 0 before ++ a.overlays ++ [a.bounding] ++
      a.without (a.position + 1) behind := by
  have hposition := hs.position_eq
  have htake : ts.take a.position = before := by simp [hs.split, hposition]
  have hdrop : ts.drop (a.position + 1) = behind := by simp [hs.split, hposition]
  unfold Assembly.rebuild
  rw [htake, hdrop]
  rfl

theorem SplitsAt.rebuild_sublist (hs : a.SplitsAt ts before t behind) :
    (a.rebuild ts).Sublist (before ++ ((a.overlays ++ [a.bounding]) ++ behind)) := by
  rw [hs.rebuild, List.append_assoc, List.append_assoc, ← List.append_assoc a.overlays]
  exact (a.without_sublist 0 before).append
    ((List.Sublist.refl _).append (a.without_sublist _ behind))

omit [TimeScale T] in
/-- What stands at the position of a part is the part. -/
theorem SplitsAt.eq_task (hs : a.SplitsAt ts before t behind) {s : SourceTrim T}
    (hmem : s ∈ a.trims) (hat : (u, s.position) ∈ before.zipIdx) : u = s.task := by
  have hpart := hs.mem_zipIdx_of_mem_trims hmem
  rw [List.mem_zipIdx_iff_getElem?] at hat hpart
  exact Option.some.inj (hat.symm.trans hpart)

omit [TimeScale T] in
/-- The parts stand before the joining. -/
theorem SplitsAt.not_mem_behind (hs : a.SplitsAt ts before t behind) {s : SourceTrim T}
    (hmem : s ∈ a.trims) : (u, s.position) ∉ behind.zipIdx (a.position + 1) := by
  intro hat
  have hposition := hs.position_eq
  have hlow := List.le_snd_of_mem_zipIdx hat
  have hhigh := List.snd_lt_of_mem_zipIdx (hs.mem_zipIdx_of_mem_trims hmem)
  simp only at hlow hhigh
  omega

/-- A task before the joining stays, unless it is a part of the source. -/
theorem SplitsAt.mem_rebuild_of_mem_before (hs : a.SplitsAt ts before t behind)
    (hu : u ∈ before) : u ∈ a.rebuild ts ∨ ∃ s ∈ a.trims, u = s.task := by
  rw [hs.rebuild]
  obtain hstays | ⟨s, hmem, hat⟩ := a.mem_without 0 hu
  · exact Or.inl (by simp [hstays])
  · exact Or.inr ⟨s, hmem, hs.eq_task hmem hat⟩

theorem SplitsAt.mem_rebuild_of_mem_behind (hs : a.SplitsAt ts before t behind)
    (hu : u ∈ behind) : u ∈ a.rebuild ts := by
  rw [hs.rebuild]
  obtain hstays | ⟨s, hmem, hat⟩ := a.mem_without (a.position + 1) hu
  · simp [hstays]
  · exact absurd hat (hs.not_mem_behind hmem)

end

end Assembly

namespace Plan
variable {T : Type}

namespace Backward
variable [TimeScale T] {a : Assembly T} {ts before behind : Plan T} {t : Task T}

omit [TimeScale T] in
theorem inOrder (h : ts.Backward) (hs : a.SplitsAt ts before t behind) :
    Backward (before ++ { t with inputs := a.inOrder.inputs } :: behind) := by
  rw [← List.singleton_append]
  rw [hs.split] at h
  apply h.replace
  · rw [names_cons]
    simp [names]
  · intro u hu name hname
    obtain rfl := List.mem_singleton.mp hu
    rw [hs.referencedNames_inputs, Assembly.inOrder, Assembly.mem_alternate] at hname
    exact Or.inr (hname.elim (fun h => hs.trimNames_subset h) fun h => hs.clips_subset h)

/-- With the overlays in the place of the joining, and the parts still there. -/
theorem overlaid (h : ts.Backward) (hs : a.SplitsAt ts before t behind) :
    Backward (before ++ ((a.overlays ++ [a.bounding]) ++ behind)) := by
  rw [hs.split] at h
  apply h.replace
  · have hnone : names a.overlays = [] :=
      List.filterMap_eq_nil_iff.mpr fun u hu => (Assembly.mem_overlays hu).1
    have houtput : a.bounding.output = t.output := by rw [hs.eq]; rfl
    rw [names_append, hnone, names_cons, houtput]
    simp [names]
  · intro u hu name hname
    obtain hoverlay | hbounding := List.mem_append.mp hu
    · exact ((Assembly.mem_overlays hoverlay).2 name hname).imp_right
        fun hclip => hs.clips_subset hclip
    · obtain rfl := List.mem_singleton.mp hbounding
      exact absurd hname List.not_mem_nil

/-- Without the parts, which nothing else reads. -/
theorem rebuild (h : ts.Backward) (hs : a.SplitsAt ts before t behind)
    (hshared : a.isShared ts = false) : Backward (a.rebuild ts) := by
  have hsub := hs.rebuild_sublist
  have hfull := h.overlaid hs
  apply hfull.sublist hsub
  intro u hu name hname
  have hreferenced : name ∈ u.referencedNames := reads_subset_referencedNames _ u hname
  have hold (hrest : u ∈ before ++ behind) : name = sourceName ∨ name ∈ names (a.rebuild ts) := by
    have hpart : name ∉ a.trimNames := by
      intro hpart
      rw [Assembly.isShared, hs.eraseIdx, List.any_eq_false] at hshared
      exact hshared u hrest (List.any_eq_true.mpr
        ⟨name, hreferenced, List.contains_iff_mem.mpr hpart⟩)
    apply (hfull.mem_names (hsub.mem hu)
      (reads_subset (names_sublist hsub).subset u hname)).imp_right
    intro hgiven
    obtain ⟨v, hv, houtput⟩ := Plan.mem_names.mp hgiven
    refine Plan.mem_names.mpr ⟨v, ?_, houtput⟩
    obtain hbefore | hrest := List.mem_append.mp hv
    · refine (hs.mem_rebuild_of_mem_before hbefore).resolve_right ?_
      rintro ⟨s, hmem, rfl⟩
      exact hpart (Option.some.inj houtput ▸ List.mem_map_of_mem hmem)
    · obtain hnew | hbehind := List.mem_append.mp hrest
      · rw [hs.rebuild, List.append_assoc (a.without 0 before)]
        exact List.mem_append_left _ (List.mem_append_right _ hnew)
      · exact hs.mem_rebuild_of_mem_behind hbehind
  obtain hbefore | hrest := List.mem_append.mp (hsub.mem hu)
  · exact hold (List.mem_append_left _ hbefore)
  · obtain hnew | hbehind := List.mem_append.mp hrest
    · obtain hoverlay | hbounding := List.mem_append.mp hnew
      · apply ((Assembly.mem_overlays hoverlay).2 name hreferenced).imp_right
        intro hclip
        obtain ⟨v, hv, hkind, houtput⟩ := hs.exists_of_mem_clips hclip
        refine Plan.mem_names.mpr ⟨v, (hs.mem_rebuild_of_mem_before hv).resolve_right ?_, houtput⟩
        rintro ⟨s, -, rfl⟩
        exact absurd hkind Bool.false_ne_true
      · obtain rfl := List.mem_singleton.mp hbounding
        exact absurd hreferenced List.not_mem_nil
    · exact hold (List.mem_append_right _ hbehind)

theorem fillGaps (h : ts.Backward) (hs : a.SplitsAt ts before t behind)
    (hfill : a.canFillGaps ts = true) : Backward (a.fillGaps ts).plan := by
  have hshared : a.isShared ts = false := by simpa using (Bool.and_eq_true_iff.mp hfill).2
  apply (h.rebuild hs hshared).filter
  intro u hu hgone name houtput v hv hread
  obtain ⟨-, name', houtput', hunread⟩ := unread_of_not_useful hgone
  obtain rfl : name' = name := Option.some.inj (houtput'.symm.trans houtput)
  exact hunread v hv hread

theorem repairAssembly (h : ts.Backward) : Backward (repairAssembly ts).plan := by
  have hmended := mended_repairAssembly ts
  generalize Plan.repairAssembly ts = mended at hmended ⊢
  cases hmended with
  | assembled _ => exact h
  | filled hs _ hfill => exact h.fillGaps hs hfill
  | ordered hs _ _ => exact h.inOrder hs

end Backward

/-! ## Durations and number -/

/-- Every task is kept or removed, and none is both. -/
theorem splitInserts_perm (n : Nat) (ts : Plan T) :
    ((splitInserts n ts).1 ++ (splitInserts n ts).2).Perm ts := by
  fun_induction splitInserts n ts with
  | case1 => exact List.Perm.refl _
  | case2 t rest _ kept removed heq ih =>
    rw [heq] at ih
    exact List.perm_middle.trans (ih.cons t)
  | case3 t rest _ n kept removed heq ih =>
    rw [heq] at ih
    exact ih.cons t
  | case4 n t rest _ kept removed heq ih =>
    rw [heq] at ih
    exact ih.cons t

theorem splitInserts_cases {n : Nat} {ts : Plan T} {t : Task T} (h : t ∈ ts) :
    t ∈ (splitInserts n ts).1 ∨ t ∈ (splitInserts n ts).2 :=
  List.mem_append.mp ((splitInserts_perm n ts).mem_iff.mpr h)

theorem splitInserts_snd_sublist (n : Nat) (ts : Plan T) : (splitInserts n ts).2.Sublist ts := by
  fun_induction splitInserts n ts with
  | case1 => exact List.Sublist.slnil
  | case2 t rest _ kept removed heq ih => exact (heq ▸ ih).cons_cons t
  | case3 t rest _ n kept removed heq ih => exact (heq ▸ ih).cons t
  | case4 n t rest _ kept removed heq ih => exact (heq ▸ ih).cons t

/-- An overlay that stays shows nothing that a removed one gives: the removed ones stand behind
it. -/
theorem clip_not_mem_removed {all ts : Plan T} {given : List String} {n : Nat}
    (h : ReadsBehind all given ts) (hdistinct : (given ++ names ts).Nodup) {u : Task T}
    (hu : u ∈ (splitInserts n ts).1) {p : VideoOverlay T} (hop : u.op = .overlayVideo p) :
    p.clip = sourceName ∨ p.clip ∉ names (splitInserts n ts).2 := by
  have hkind : u.isKind .overlayVideo = true := by
    simp [Task.isKind, Task.kind?, hop, Operation.kind?]
  fun_induction splitInserts n ts generalizing given with
  | case1 => exact absurd hu List.not_mem_nil
  | case2 t rest _ kept removed heq =>
    have hnone : kept.countP (Task.isKind .overlayVideo) = 0 := by
      have hcount := count_splitInserts 0 rest
      rw [heq, Nat.zero_min] at hcount
      exact hcount
    exact absurd hkind (List.countP_eq_zero.mp hnone u hu)
  | case3 t rest _ n kept removed heq ih =>
    rw [heq] at ih
    obtain rfl | hrest := List.mem_cons.mp hu
    · have hread : p.clip ∈ all.reads u := mem_reads_iff.mpr (Or.inr (Or.inl ⟨p, hop, rfl⟩))
      apply (h.1 p.clip hread).imp_right
      intro hgiven hremoved
      have hsub : names removed ⊆ names (u :: rest) := by
        have hremoved := splitInserts_snd_sublist n rest
        rw [heq] at hremoved
        exact (names_sublist (hremoved.cons u)).subset
      exact (List.nodup_append.mp hdistinct).2.2 _ hgiven _ (hsub hremoved) rfl
    · rw [names_cons, ← List.append_assoc] at hdistinct
      exact ih h.2 hdistinct hrest
  | case4 n t rest ht kept removed heq ih =>
    rw [heq] at ih
    obtain rfl | hrest := List.mem_cons.mp hu
    · exact absurd hkind ht
    · rw [names_cons, ← List.append_assoc] at hdistinct
      exact ih h.2 hdistinct hrest

/-- Without the reads of some names among the inputs. -/
def dropInputs (gone : List String) (t : Task T) : Task T :=
  { t with inputs := t.inputs.filter fun i => !gone.contains i }

theorem names_map_dropInputs (gone : List String) (ts : Plan T) :
    names (ts.map (dropInputs gone)) = names ts :=
  names_map (f := dropInputs gone) (fun _ => rfl) ts

theorem dropInputs_reads_subset (gone : List String) (all : Plan T) (t : Task T) :
    all.reads (dropInputs gone t) ⊆ all.reads t := by
  intro name hname
  rw [mem_reads_iff] at hname ⊢
  exact hname.imp_left fun hin => (List.mem_filter.mp hin).1

theorem dropInputs_referencedNames_subset (gone : List String) (t : Task T) :
    (dropInputs gone t).referencedNames ⊆ t.referencedNames :=
  Task.referencedNames_subset (List.filter_subset_self _) rfl

theorem truncateInserts_plan_of_lt {n : Nat} {ts : Plan T} (h : ¬ ts.count .overlayVideo ≤ n) :
    (truncateInserts n ts).plan =
      (((splitInserts n ts).1.map (dropInputs (names (splitInserts n ts).2))).filter fun t =>
        (orphan? (splitInserts n ts).1 (splitInserts n ts).2 t).isNone) := by
  rw [truncateInserts, if_neg h, List.filter_map]
  rfl

theorem reads_clampTask_subset [TimeScale T] (r : InsertRules T) (all : Plan T) (t : Task T) :
    all.reads (clampTask r t).plan ⊆ all.reads t := by
  obtain h | ⟨p, hop, h⟩ := clampTask_cases r t
  · rw [h]
    exact List.Subset.refl _
  · rw [h, reads, reads, hop]
    exact List.Subset.refl _

namespace Backward
variable {ts : Plan T}

theorem clampDurations [TimeScale T] (r : InsertRules T) (h : ts.Backward) :
    Backward (clampDurations r ts).plan := by
  simp only [Plan.clampDurations, List.map_map]
  exact h.map (clampTask_output r) fun t _ => reads_clampTask_subset r ts t

/-- Without the overlays behind the first `n`, and without what the others read of them. -/
theorem splitInserts (h : ts.Backward) (n : Nat) :
    Backward ((splitInserts n ts).1.map (dropInputs (names (splitInserts n ts).2))) := by
  have hsub := splitInserts_sublist n ts
  generalize hgone : names (Plan.splitInserts n ts).2 = gone
  have hmap : Backward (ts.map (dropInputs gone)) :=
    h.map (fun _ => rfl) fun t _ => dropInputs_reads_subset gone ts t
  apply hmap.sublist (hsub.map (dropInputs gone))
  rw [List.forall_mem_map]
  intro u hu name hname
  rw [names_map_dropInputs]
  have hstays (hread : name ∈ ts.reads u) (hnot : name = sourceName ∨ name ∉ gone) :
      name = sourceName ∨ name ∈ names (Plan.splitInserts n ts).1 := by
    obtain hsource | hnot := hnot
    · exact Or.inl hsource
    · apply (h.mem_names (hsub.mem hu) hread).imp_right
      intro hgiven
      obtain ⟨t, ht, houtput⟩ := Plan.mem_names.mp hgiven
      refine Plan.mem_names.mpr ⟨t, (splitInserts_cases ht).resolve_right ?_, houtput⟩
      intro hremoved
      exact hnot (hgone ▸ Plan.mem_names.mpr ⟨t, hremoved, houtput⟩)
  obtain hin | ⟨p, hop, rfl⟩ | ⟨p, hop, rfl, hgiven⟩ := mem_reads_iff.mp hname
  · obtain ⟨hold, hnot⟩ := List.mem_filter.mp hin
    exact hstays (mem_reads_iff.mpr (Or.inl hold)) (Or.inr (by simpa using hnot))
  · have hclip := clip_not_mem_removed h.reads (by simpa using h.distinct) hu hop
    exact hstays (mem_reads_iff.mpr (Or.inr (Or.inl ⟨p, hop, rfl⟩))) (hgone ▸ hclip)
  · rw [names_map_dropInputs] at hgiven
    exact Or.inr hgiven

theorem truncateInserts (n : Nat) (h : ts.Backward) : Backward (truncateInserts n ts).plan := by
  by_cases hle : ts.count .overlayVideo ≤ n
  · rw [truncateInserts_of_count_le hle]
    exact h
  · rw [truncateInserts_plan_of_lt hle]
    apply (h.splitInserts n).filter
    intro t _ horphan name houtput
    rw [List.forall_mem_map]
    intro u hu hread
    obtain ⟨-, name', houtput', hunread⟩ := unread_of_orphan? horphan
    obtain rfl : name' = name := Option.some.inj (houtput'.symm.trans houtput)
    exact hunread u hu (dropInputs_referencedNames_subset _ u hread)

variable [TimeScale T]

theorem repair (r : InsertRules T) (h : ts.Backward)
    (hspares : SparesImages ts ts.nameFetches.plan) : Backward (ts.repair r).plan :=
  (((h.nameFetches hspares).repairAssembly).clampDurations r).truncateInserts r.maxInserts

end Backward

/-! ## The repair -/

variable [TimeScale T]

/-- The names that a repair newly gives to fetches, those of fetches for slots included. -/
def newNames (slots : List (Slot T)) (ts : Plan T) : List String :=
  (names (if ts.wantsSlots slots then ts.withSlots slots else ts).nameFetches.plan).filter
    fun name => name ∉ names ts

theorem Backward.repairWithSlots (r : InsertRules T) (slots : List (Slot T)) {ts : Plan T}
    (h : ts.Backward) (himages : ∀ image ∈ ts.images, image ∉ ts.newNames slots) :
    Backward (ts.repairWithSlots r slots).plan := by
  have hspares : SparesImages ts
      (if ts.wantsSlots slots then ts.withSlots slots else ts).nameFetches.plan := by
    intro image himage hgiven
    by_contra hnew
    exact himages image himage (List.mem_filter.mpr ⟨hgiven, by simpa using hnew⟩)
  unfold Plan.repairWithSlots
  split_ifs at hspares ⊢ with hslots
  · have hnamed := names_subset_nameFrom (ts.withSlots slots).declaredNames 0 0 (ts.withSlots slots)
    apply Backward.repair r
    · apply h.withSlots
      intro image himage hgiven
      exact hspares image himage (hnamed hgiven)
    · intro image himage hgiven
      rw [images_withSlots] at himage
      rw [Plan.withSlots, names_append]
      exact List.mem_append_left _ (hspares image himage hgiven)
  · exact h.repair r hspares

/-- Repairing a plan without issues of names brings none up, if no image of an overlay is spelled
like a name that the repair gives to a fetch. -/
theorem naming_issues_repair (r : InsertRules T) (slots : List (Slot T)) (ts : Plan T)
    (h : ∀ e ∈ ts.issues, e.isNaming = false) :
    ((∀ image ∈ ts.images, image ∉ ts.newNames []) →
      ∀ e ∈ (ts.repair r).plan.issues, e.isNaming = false) ∧
    ((∀ image ∈ ts.images, image ∉ ts.newNames slots) →
      ∀ e ∈ (ts.repairWithSlots r slots).plan.issues, e.isNaming = false) := by
  have hbackward := backward_iff.mpr h
  constructor
  · intro himages
    exact backward_iff.mp (hbackward.repairWithSlots r [] himages)
  · intro himages
    exact backward_iff.mp (hbackward.repairWithSlots r slots himages)

/-- An assembly with a nameless fetch, an image and an unknown task. -/
def looseAssembly : Plan Rat :=
  [⟨.trim ⟨0, some 5⟩, some "a", [sourceName]⟩,
    ⟨.fetchVideo ⟨"city", [], 30, "landscape"⟩, some "x", []⟩,
    ⟨.fetchVideo ⟨"sea", [], 30, "landscape"⟩, none, []⟩,
    ⟨.trim ⟨8, some 20⟩, some "b", [sourceName]⟩,
    ⟨.concat ⟨[]⟩, some "v", ["a", "x", "b"]⟩,
    ⟨.addImageOverlay ⟨"logo.png", "top-left", none, none, 1⟩, none, ["v"]⟩,
    ⟨.unrecognized "sparkle" .null, none, []⟩]

theorem naming_issues_repair_looseAssembly :
    (∀ e ∈ looseAssembly.issues, e.isNaming = false) ∧
      (∀ image ∈ looseAssembly.images, image ∉ looseAssembly.newNames [.window 10 15]) ∧
      (∀ e ∈ (looseAssembly.repair InsertRules.default).plan.issues, e.isNaming = false) ∧
      ∀ e ∈ (looseAssembly.repairWithSlots InsertRules.default [.window 10 15]).plan.issues,
        e.isNaming = false := by
  have h : ∀ e ∈ looseAssembly.issues, e.isNaming = false := by decide +kernel
  have himages : ∀ image ∈ looseAssembly.images,
      image ∉ looseAssembly.newNames [.window 10 15] := by decide +kernel
  have hrepaired := naming_issues_repair InsertRules.default [.window 10 15] looseAssembly h
  exact ⟨h, himages, hrepaired.1 (by decide +kernel), hrepaired.2 himages⟩

end Plan

end Montage
