import Mathlib.Data.List.Nodup
import Mathlib.Tactic.SplitIfs
import Mathlib.Tactic.Tauto
import Montage.Plan.Issue

/-!
# What the issues of a plan say

A plan without issues of names is one in which each name is given once and read only behind the
task that gives it. The condition is carried through a list as the issues are found, with the names
that are given before, and has one lemma for each way in which a stage of a repair changes a list:
tasks are changed one by one, left out, or put in the place of another.
-/

namespace Montage

/-- An issue of a name, rather than of a type. -/
def Issue.isNaming : Issue → Bool
  | .unrecognizedType _ _ => false
  | _ => true

namespace Task
variable {T : Type}

/-- What an overlay shows, a clip or an image. -/
def shown? (t : Task T) : Option String :=
  match t.op with
  | .overlayVideo p => some p.clip
  | .addImageOverlay p => some p.image
  | _ => none

theorem referencedNames_eq (t : Task T) : t.referencedNames = t.inputs ++ t.shown?.toList := by
  obtain ⟨op, output, inputs⟩ := t
  cases op <;> rfl

theorem referencedNames_subset {s t : Task T} (hinputs : t.inputs ⊆ s.inputs)
    (hshown : t.shown? = s.shown?) : t.referencedNames ⊆ s.referencedNames := by
  rw [referencedNames_eq, referencedNames_eq, hshown]
  exact List.append_subset.mpr ⟨List.subset_append_of_subset_left _ hinputs,
    List.subset_append_right _ _⟩

end Task

namespace Plan
variable {T : Type}

/-! ## Names -/

/-- The names that the tasks of a plan give. -/
def names (ts : Plan T) : List String := ts.filterMap Task.output

theorem mem_names {name : String} {ts : Plan T} :
    name ∈ names ts ↔ ∃ t ∈ ts, t.output = some name :=
  List.mem_filterMap

theorem names_append (ts us : Plan T) : names (ts ++ us) = names ts ++ names us :=
  List.filterMap_append

theorem names_cons (t : Task T) (ts : Plan T) : names (t :: ts) = t.output.toList ++ names ts := by
  cases h : t.output <;> simp [names, h]

theorem names_sublist {ts us : Plan T} (h : us.Sublist ts) : (names us).Sublist (names ts) :=
  h.filterMap Task.output

theorem names_map {f : Task T → Task T} (hf : ∀ t, (f t).output = t.output) (ts : Plan T) :
    names (ts.map f) = names ts := by
  rw [names, List.filterMap_map]
  exact List.filterMap_congr fun t _ => hf t

theorem isSome_declaredAt? {name : String} {ts : Plan T} :
    (ts.declaredAt? name).isSome = true ↔ name ∈ names ts := by
  rw [declaredAt?, List.findIdx?_isSome, List.any_eq_true, mem_names]
  simp

theorem mem_reads_iff {ts : Plan T} {t : Task T} {name : String} :
    name ∈ ts.reads t ↔ name ∈ t.inputs ∨ (∃ p, t.op = .overlayVideo p ∧ name = p.clip) ∨
      ∃ p, t.op = .addImageOverlay p ∧ name = p.image ∧ name ∈ names ts := by
  unfold reads
  rw [List.mem_append]
  apply or_congr_right
  cases hop : t.op with
  | overlayVideo p => simp
  | addImageOverlay p =>
    simp only [isSome_declaredAt?]
    split_ifs with h
    · constructor
      · intro hname
        obtain rfl := List.mem_singleton.mp hname
        exact Or.inr ⟨p, rfl, rfl, h⟩
      · rintro (⟨q, ⟨⟩, -⟩ | ⟨q, ⟨⟩, rfl, -⟩)
        exact List.mem_singleton_self _
    · constructor
      · intro hname
        exact absurd hname List.not_mem_nil
      · rintro (⟨q, ⟨⟩, -⟩ | ⟨q, ⟨⟩, rfl, hmem⟩)
        exact absurd hmem h
  | _ => simp

/-- Only the image of an overlay is read depending on the other tasks. -/
theorem reads_subset {ts us : Plan T} (h : names us ⊆ names ts) (t : Task T) :
    us.reads t ⊆ ts.reads t := by
  intro name hname
  obtain hin | hclip | ⟨p, hop, himage, hgiven⟩ := mem_reads_iff.mp hname
  · exact mem_reads_iff.mpr (Or.inl hin)
  · exact mem_reads_iff.mpr (Or.inr (Or.inl hclip))
  · exact mem_reads_iff.mpr (Or.inr (Or.inr ⟨p, hop, himage, h hgiven⟩))

theorem reads_subset_referencedNames (ts : Plan T) (t : Task T) :
    ts.reads t ⊆ t.referencedNames := by
  intro name hname
  unfold Task.referencedNames
  obtain hin | ⟨p, hop, rfl⟩ | ⟨p, hop, rfl, -⟩ := mem_reads_iff.mp hname
  · exact List.mem_append_left _ hin
  · simp [hop]
  · simp [hop]

/-! ## Reading behind -/

/-- Each task of a list reads nothing but what the source is called, what is `given` before the
list, and what the tasks before it give. The images that are names are those of the plan `all`. -/
def ReadsBehind (all : Plan T) (given : List String) : Plan T → Prop
  | [] => True
  | t :: rest => (∀ name ∈ all.reads t, name = sourceName ∨ name ∈ given) ∧
      ReadsBehind all (given ++ t.output.toList) rest

section
variable {all all' : Plan T} {given given' : List String}

theorem readsBehind_append {ts us : Plan T} : ReadsBehind all given (ts ++ us) ↔
    ReadsBehind all given ts ∧ ReadsBehind all (given ++ names ts) us := by
  induction ts generalizing given with
  | nil => simp [ReadsBehind, names]
  | cons t ts ih =>
    simp only [List.cons_append, ReadsBehind, ih, names_cons, List.append_assoc, and_assoc]

/-- Tasks that read no more, behind tasks that give no less. -/
theorem ReadsBehind.map {ts : Plan T} {f : Task T → Task T} (h : ReadsBehind all given ts)
    (hgiven : given ⊆ given') (houtput : ∀ t, (f t).output = t.output)
    (hreads : ∀ t ∈ ts, all'.reads (f t) ⊆ all.reads t) :
    ReadsBehind all' given' (ts.map f) := by
  induction ts generalizing given given' with
  | nil => trivial
  | cons t ts ih =>
    obtain ⟨ht, hrest⟩ := h
    constructor
    · intro name hname
      exact (ht name (hreads t List.mem_cons_self hname)).imp_right (@hgiven name)
    · rw [houtput]
      refine ih hrest (List.append_subset.mpr ⟨?_, List.subset_append_right _ _⟩) fun u hu =>
        hreads u (List.mem_cons_of_mem t hu)
      exact List.subset_append_of_subset_left _ hgiven

theorem ReadsBehind.mono {ts : Plan T} (h : ReadsBehind all given ts) (hgiven : given ⊆ given')
    (hnames : names all' ⊆ names all) : ReadsBehind all' given' ts := by
  have hmap := h.map (f := id) hgiven (fun _ => rfl) fun t _ => reads_subset hnames t
  rwa [List.map_id] at hmap

theorem ReadsBehind.mem {ts : Plan T} (h : ReadsBehind all given ts) {t : Task T} (ht : t ∈ ts)
    {name : String} (hname : name ∈ all.reads t) :
    name = sourceName ∨ name ∈ given ++ names ts := by
  induction ts generalizing given with
  | nil => exact absurd ht List.not_mem_nil
  | cons u ts ih =>
    rw [names_cons, ← List.append_assoc]
    obtain rfl | hts := List.mem_cons.mp ht
    · exact (h.1 name hname).imp_right fun hgiven => by simp [hgiven]
    · exact ih h.2 hts

/-- Reading nothing but what is given before the list. -/
theorem ReadsBehind.of_forall {ts : Plan T}
    (h : ∀ t ∈ ts, ∀ name ∈ all.reads t, name = sourceName ∨ name ∈ given) :
    ReadsBehind all given ts := by
  induction ts generalizing given with
  | nil => trivial
  | cons t ts ih =>
    refine ⟨h t List.mem_cons_self, ih fun u hu name hname => ?_⟩
    exact (h u (List.mem_cons_of_mem t hu) name hname).imp_right (List.mem_append_left _)

/-- A part of a list, if the names that it reads are still given before it or in it. As each name
is given once, it is given where it was. -/
theorem ReadsBehind.sublist {ts us : Plan T} (h : ReadsBehind all given ts)
    (hsub : us.Sublist ts) (hdistinct : (given ++ names ts).Nodup)
    (hnames : names all' ⊆ names all)
    (hgiven : ∀ u ∈ us, ∀ name ∈ all'.reads u, name = sourceName ∨ name ∈ given' ++ names us) :
    ReadsBehind all' given' us := by
  induction hsub generalizing given given' with
  | slnil => trivial
  | cons t hsub ih =>
    rw [names_cons, ← List.append_assoc] at hdistinct
    exact ih h.2 hdistinct hgiven
  | cons_cons t hsub ih =>
    rename_i us ts
    constructor
    · intro name hname
      obtain hsource | hmem := hgiven t List.mem_cons_self name hname
      · exact Or.inl hsource
      · obtain hsource | hbefore := h.1 name (reads_subset hnames t hname)
        · exact Or.inl hsource
        · refine Or.inr ((List.mem_append.mp hmem).resolve_right fun hlater => ?_)
          exact (List.nodup_append.mp hdistinct).2.2 name hbefore name
            ((names_sublist (hsub.cons_cons t)).subset hlater) rfl
    · rw [names_cons, ← List.append_assoc] at hdistinct
      refine ih h.2 hdistinct fun u hu name hname => ?_
      rw [List.append_assoc, ← names_cons]
      exact hgiven u (List.mem_cons_of_mem t hu) name hname

end

/-- Each name of a plan is given once, and read behind the task that gives it. -/
structure Backward (ts : Plan T) : Prop where
  distinct : (names ts).Nodup
  reads : ReadsBehind ts [] ts

/-! ## Issues -/

theorem naming_issueOfRead {ts before : Plan T} {name : String} :
    (∀ e ∈ ts.issueOfRead before name, e.isNaming = false) ↔
      name = sourceName ∨ name ∈ names before := by
  rw [← isSome_declaredAt?, issueOfRead]
  simp only [Bool.or_eq_true, decide_eq_true_eq]
  split_ifs with h
  · exact iff_of_true nofun h
  · apply iff_of_false _ h
    intro hall
    split at hall
    · exact absurd (hall _ rfl) (by simp [Issue.isNaming])
    · exact absurd (hall _ rfl) (by simp [Issue.isNaming])

/-- A task reads what is given before it, and gives what is not. -/
theorem naming_issuesOfTask {ts before : Plan T} {t : Task T} :
    (∀ e ∈ ts.issuesOfTask before t, e.isNaming = false) ↔
      (∀ name ∈ ts.reads t, name = sourceName ∨ name ∈ names before) ∧
        ∀ name ∈ t.output, name ∉ names before := by
  unfold issuesOfTask
  rw [List.forall_mem_append, List.forall_mem_append]
  apply and_congr
  · rw [and_iff_right]
    · simp only [← @naming_issueOfRead T ts, List.mem_filterMap]
      constructor
      · intro h name hname e he
        exact h e ⟨name, hname, he⟩
      · rintro h e ⟨name, hname, he⟩
        exact h name hname e he
    · intro e he
      split at he
      · obtain rfl := List.mem_singleton.mp he
        rfl
      · exact absurd he List.not_mem_nil
  · cases hname : t.output with
    | none => simp
    | some name =>
      simp only [Option.mem_some, forall_eq', ← isSome_declaredAt?]
      cases before.declaredAt? name <;> simp [Issue.isNaming]

theorem naming_issuesFrom {ts before rest : Plan T} (hbefore : (names before).Nodup) :
    (∀ e ∈ ts.issuesFrom before rest, e.isNaming = false) ↔
      (names (before ++ rest)).Nodup ∧ ReadsBehind ts (names before) rest := by
  induction rest generalizing before with
  | nil => simp [issuesFrom, ReadsBehind, hbefore]
  | cons t rest ih =>
    have hsplit : before ++ t :: rest = before ++ [t] ++ rest := by simp
    have hone : names (before ++ [t]) = names before ++ t.output.toList := by
      rw [names_append, names_cons]
      simp [names]
    rw [issuesFrom, List.forall_mem_append, naming_issuesOfTask, ReadsBehind, hsplit, ← hone]
    by_cases hfresh : ∀ name ∈ t.output, name ∉ names before
    · rw [ih]
      · tauto
      · rw [hone, List.nodup_append]
        refine ⟨hbefore, by cases t.output <;> simp, ?_⟩
        rintro name hname given hgiven rfl
        exact hfresh name (Option.mem_toList.mp hgiven) hname
    · apply iff_of_false
      · tauto
      · rintro ⟨hdistinct, -⟩
        apply hfresh
        intro name hname hmem
        rw [names_append, hone] at hdistinct
        have hfront := (List.nodup_append.mp hdistinct).1
        exact (List.nodup_append.mp hfront).2.2 name hmem name (Option.mem_toList.mpr hname) rfl

theorem backward_iff {ts : Plan T} :
    ts.Backward ↔ ∀ e ∈ ts.issues, e.isNaming = false := by
  have hnil : (names ([] : Plan T)).Nodup := List.nodup_nil
  rw [issues, naming_issuesFrom hnil]
  exact ⟨fun h => ⟨h.distinct, h.reads⟩, fun h => ⟨h.1, h.2⟩⟩

/-! ## Changes of a plan -/

namespace Backward
variable {ts us before new behind : Plan T} {t : Task T}

theorem map (h : ts.Backward) {f : Task T → Task T} (houtput : ∀ t, (f t).output = t.output)
    (hreads : ∀ t ∈ ts, ts.reads (f t) ⊆ ts.reads t) : Backward (ts.map f) where
  distinct := by
    rw [names_map houtput]
    exact h.distinct
  reads := by
    apply h.reads.map (List.Subset.refl _) houtput
    intro t ht name hname
    exact hreads t ht (reads_subset (by rw [names_map houtput]; exact List.Subset.refl _) _ hname)

theorem sublist (h : ts.Backward) (hsub : us.Sublist ts)
    (hgiven : ∀ u ∈ us, ∀ name ∈ us.reads u, name = sourceName ∨ name ∈ names us) :
    us.Backward where
  distinct := h.distinct.sublist (names_sublist hsub)
  reads := h.reads.sublist hsub (by simpa using h.distinct) (names_sublist hsub).subset
    (by simpa using hgiven)

theorem mem_names (h : ts.Backward) (ht : t ∈ ts) {name : String} (hname : name ∈ ts.reads t) :
    name = sourceName ∨ name ∈ names ts := by
  simpa using h.reads.mem ht hname

/-- Without some tasks whose names are read nowhere. -/
theorem filter (h : ts.Backward) {keep : Task T → Bool} (hkeep : ∀ t ∈ ts, keep t = false →
    ∀ name ∈ t.output, ∀ u ∈ ts, name ∉ u.referencedNames) : Backward (ts.filter keep) := by
  apply h.sublist List.filter_sublist
  intro u hu name hname
  have hmem : u ∈ ts := (List.mem_filter.mp hu).1
  have hread := reads_subset (names_sublist List.filter_sublist).subset u hname
  apply (h.mem_names hmem hread).imp_right
  intro hgiven
  obtain ⟨t, ht, houtput⟩ := Plan.mem_names.mp hgiven
  refine Plan.mem_names.mpr ⟨t, List.mem_filter.mpr ⟨ht, ?_⟩, houtput⟩
  by_contra hgone
  exact hkeep t ht (Bool.eq_false_iff.mpr hgone) name houtput u hmem
    (reads_subset_referencedNames ts u hread)

/-- With other tasks in the place of one, that give what it gave and read what is given before. -/
theorem replace (h : Backward (before ++ t :: behind)) (hnames : names new = t.output.toList)
    (hreads : ∀ u ∈ new, ∀ name ∈ u.referencedNames, name = sourceName ∨ name ∈ names before) :
    Backward (before ++ (new ++ behind)) := by
  have hall : names (before ++ (new ++ behind)) = names (before ++ t :: behind) := by
    simp only [names_append, names_cons, hnames]
  have hsub : names (before ++ (new ++ behind)) ⊆ names (before ++ t :: behind) :=
    hall ▸ List.Subset.refl _
  obtain ⟨hbefore, -, hbehind⟩ := readsBehind_append.mp h.reads
  refine ⟨hall ▸ h.distinct, readsBehind_append.mpr ⟨hbefore.mono (List.Subset.refl _) hsub,
    readsBehind_append.mpr ⟨?_, ?_⟩⟩⟩
  · apply ReadsBehind.of_forall
    intro u hu name hname
    exact hreads u hu name (reads_subset_referencedNames _ u hname)
  · rw [hnames]
    exact hbehind.mono (List.Subset.refl _) hsub

end Backward

end Plan

end Montage
