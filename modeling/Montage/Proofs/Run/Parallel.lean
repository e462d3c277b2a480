import Montage.Proofs.Run.Progress
import Montage.Proofs.Scratch.Issued

/-!
# Parallel registries

Two registries are parallel for a relation of paths if the same names stand for something in both,
and for related paths. The second may declare less, and blocks nothing. A transformation that is
given its files by the first is given related ones by the second, and then its recipe asks for the
same with related files.
-/

namespace Montage

/-! ## Registries -/

namespace Registry

/-- Names stand for related paths. -/
structure Parallel (R : Path → Path → Prop) (r r' : Registry) : Prop where
  names : ∀ name, Option.Rel R (r.resolve? name) (r'.resolve? name)
  current : R r.current r'.current
  produced : r'.produced = r.produced
  declared : r'.declared ⊆ r.declared
  blocked : r'.blocked = []

namespace Parallel
variable {R S : Path → Path → Prop} {r r' : Registry} {p p' : Path} {name : String}

theorem mono (h : Parallel R r r') (hRS : ∀ p p', R p p' → S p p') : Parallel S r r' where
  names name := by
    have hnames := h.names name
    generalize r.resolve? name = found, r'.resolve? name = found' at hnames ⊢
    cases hnames with
    | some hp => exact .some (hRS _ _ hp)
    | none => exact .none
  current := hRS _ _ h.current
  produced := h.produced
  declared := h.declared
  blocked := h.blocked

theorem isSome_eq (h : Parallel R r r') (name : String) :
    (r'.resolve? name).isSome = (r.resolve? name).isSome := by
  have hnames := h.names name
  generalize r.resolve? name = found, r'.resolve? name = found' at hnames ⊢
  cases hnames <;> rfl

theorem exists_resolve? (h : Parallel R r r') (hp : r.resolve? name = some p) :
    ∃ p', r'.resolve? name = some p' ∧ R p p' := by
  have hnames := h.names name
  rw [hp] at hnames
  generalize r'.resolve? name = found at hnames ⊢
  cases hnames with
  | some hR => exact ⟨_, rfl, hR⟩

theorem resolve?_eq_none (h : Parallel R r r') (hp : r.resolve? name = none) :
    r'.resolve? name = none := by
  have hsome := h.isSome_eq name
  rw [hp] at hsome
  exact Option.isSome_eq_false_iff.mp hsome |> Option.isNone_iff_eq_none.mp

theorem of_eq {q q' : Registry} (h : Parallel R r r') (hnames : q.names = r.names)
    (hcurrent : q.current = r.current) (hproduced : q.produced = r.produced)
    (hdeclared : q.declared = r.declared) (hnames' : q'.names = r'.names)
    (hcurrent' : q'.current = r'.current) (hproduced' : q'.produced = r'.produced)
    (hdeclared' : q'.declared = r'.declared) (hblocked' : q'.blocked = r'.blocked) :
    Parallel R q q' where
  names name := by
    unfold resolve?
    rw [hnames, hnames']
    exact h.names name
  current := by rw [hcurrent, hcurrent']; exact h.current
  produced := by rw [hproduced, hproduced', h.produced]
  declared := by rw [hdeclared, hdeclared']; exact h.declared
  blocked := by rw [hblocked', h.blocked]

theorem bind (h : Parallel R r r') (hp : R p p') (name : String) :
    Parallel R (r.bind name p) (r'.bind name p') where
  names other := by
    have hlookup (r : Registry) (p : Path) : (r.bind name p).resolve? other =
        if other = name then some p else r.resolve? other := by
      unfold Registry.bind resolve?
      rw [List.lookup_cons]
      split
      · rename_i heq
        rw [if_pos (eq_of_beq heq)]
      · rename_i heq
        rw [if_neg (by simpa using heq)]
    rw [hlookup, hlookup]
    split_ifs
    · exact .some hp
    · exact h.names other
  current := h.current
  produced := by
    unfold Registry.bind
    rw [h.isSome_eq, h.produced]
  declared := h.declared
  blocked := by
    unfold Registry.bind
    rw [h.blocked]
    rfl

/-- Outputs that are related are published under the same name. -/
theorem publish (h : Parallel R r r') (hp : R p p') (name? : Option String)
    (effect : ChainEffect) :
    Parallel R (r.publish name? p effect) (r'.publish name? p' effect) := by
  cases name? with
  | some name => cases effect with
    | mainChain => exact { h.bind hp name with current := hp }
    | sideArtifact => exact h.bind hp name
  | none => cases effect with
    | mainChain => exact { h with current := hp }
    | sideArtifact => exact h

end Parallel

end Registry

/-! ## Recipes -/

/-- The sidecars of two calls: there is none, or both take the next path, asked for alike. -/
def SameSidecar (scratch scratch' : Scratch) (sidecar? sidecar'? : Option Sidecar) : Prop :=
  sidecar? = none ∧ sidecar'? = none ∨ ∃ stem extension text text',
    '/' ∉ String.toList stem ∧ Scratch.Plain extension ∧
    sidecar? = some ⟨scratch.next stem extension, text⟩ ∧
    sidecar'? = some ⟨scratch'.next stem extension, text'⟩

namespace Operation
variable {T : Type} [TimeScale T] [Spelled T]

/-- With related files the same is asked for, with a sidecar beside it or not. -/
theorem recipe_parallel {R : Path → Path → Prop} {op : Operation T} {step step' : StepFiles}
    {font : Path} {scratch : Scratch} {fs : Files} {i : Invocation} {sidecar? : Option Sidecar}
    (h : op.recipe step font scratch fs = .call i sidecar?)
    (hinputs : List.Forall₂ R step.inputs step'.inputs)
    (hattachment : Option.Rel R step.attachment step'.attachment) (scratch' : Scratch)
    (fs' : Files) :
    ∃ i' sidecar'?, op.recipe step' font scratch' fs' = .call i' sidecar'? ∧
      List.Forall₂ R i.inputs i'.inputs ∧ SameSidecar scratch scratch' sidecar? sidecar'? := by
  obtain ⟨inputs, attachment, output⟩ := step
  obtain ⟨inputs', attachment', output'⟩ := step'
  dsimp only at hinputs hattachment
  unfold recipe at h ⊢
  cases hinputs with
  | nil => simp at h
  | cons hprimary hrest =>
    dsimp only at h ⊢
    cases op with
    | concat p =>
      simp only [recipeFor] at h ⊢
      obtain ⟨rfl, rfl⟩ := Recipe.call.inj h
      exact ⟨_, _, rfl, .cons hprimary hrest,
        .inr ⟨"concat", "txt", _, _, by decide, by decide, rfl, rfl⟩⟩
    | addSubtitles p =>
      simp only [recipeFor] at h ⊢
      split_ifs at h ⊢
      obtain ⟨rfl, rfl⟩ := Recipe.call.inj h
      exact ⟨_, _, rfl, .cons hprimary .nil,
        .inr ⟨"subtitles", "srt", _, _, by decide, by decide, rfl, rfl⟩⟩
    | overlayVideo p =>
      simp only [recipeFor] at h ⊢
      cases hattachment with
      | none => simp at h
      | some hclip =>
        obtain ⟨rfl, rfl⟩ := Recipe.call.inj h
        exact ⟨_, _, rfl, .cons hprimary (.cons hclip .nil), .inl ⟨rfl, rfl⟩⟩
    | addImageOverlay p =>
      simp only [recipeFor] at h ⊢
      cases hattachment with
      | none => simp at h
      | some himage =>
        obtain ⟨rfl, rfl⟩ := Recipe.call.inj h
        exact ⟨_, _, rfl, .cons hprimary (.cons himage .nil), .inl ⟨rfl, rfl⟩⟩
    | addTextOverlay p =>
      simp only [recipeFor] at h ⊢
      split_ifs at h ⊢
      obtain ⟨rfl, rfl⟩ := Recipe.call.inj h
      exact ⟨_, _, rfl, .cons hprimary .nil, .inl ⟨rfl, rfl⟩⟩
    | fetchVideo p => simp [recipeFor] at h
    | fetchImage p => simp [recipeFor] at h
    | unrecognized name params => simp [recipeFor] at h
    | _ =>
      simp only [recipeFor] at h ⊢
      obtain ⟨rfl, rfl⟩ := Recipe.call.inj h
      exact ⟨_, _, rfl, .cons hprimary .nil, .inl ⟨rfl, rfl⟩⟩

end Operation

/-! ## The files of a step -/

/-- The paths that a task holds itself. -/
def Task.paths {T : Type} (t : Task T) : List Path :=
  match t.op with
  | .concat p => p.clips
  | .addImageOverlay p => [⟨p.image⟩]
  | _ => []

namespace Setup
variable {T : Type} {R : Path → Path → Prop} {r r' : Registry} {fs fs' : Files} {position : Nat}
  {t : Task T} {inputs : List Path} {attachment : Option Path}

theorem mapM_resolve_parallel (h : r.Parallel R r') {step : String} {names : List String}
    (hnames : names.mapM (resolve r step position) = .ok inputs) (position' : Nat) :
    ∃ inputs', names.mapM (resolve r' step position') = .ok inputs' ∧
      List.Forall₂ R inputs inputs' := by
  have hall := mapM_resolve_eq_ok hnames
  clear hnames
  induction names generalizing inputs with
  | nil =>
    obtain rfl := List.map_eq_nil_iff.mp hall
    exact ⟨[], rfl, .nil⟩
  | cons name names ih =>
    obtain ⟨p, rest, rfl, hp, hrest⟩ := List.map_eq_cons_iff.mp hall
    obtain ⟨p', hp', hR⟩ := h.exists_resolve? hp.symm
    obtain ⟨rest', hrest', hall'⟩ := ih hrest
    refine ⟨p' :: rest', ?_, .cons hR hall'⟩
    rw [List.mapM_cons, resolve_eq_ok.mpr hp', hrest']
    rfl

/-- A task that gets its inputs by one registry gets related ones by the other. -/
theorem inputsOf_parallel (h : r.Parallel R r')
    (hpaths : ∀ p ∈ t.paths, fs'.isFile p = fs.isFile p ∧ R p p)
    (hinputs : inputsOf r fs position t = .ok inputs) (position' : Nat) :
    ∃ inputs', inputsOf r' fs' position' t = .ok inputs' ∧ List.Forall₂ R inputs inputs' := by
  unfold inputsOf at hinputs ⊢
  split_ifs at hinputs ⊢
  · cases hop : t.op with
    | concat p =>
      rw [hop] at hinputs
      obtain rfl := Except.ok.inj hinputs
      have hclips : ∀ clip ∈ p.clips, fs'.isFile clip = fs.isFile clip ∧ R clip clip := by
        intro clip hclip
        exact hpaths clip (by simpa [Task.paths, hop] using hclip)
      refine ⟨p.clips.filter fs.isFile, ?_, ?_⟩
      · exact congrArg Except.ok (List.filter_congr fun clip hclip => (hclips clip hclip).1)
      · exact List.forall₂_same.mpr fun clip hclip => (hclips clip (List.mem_filter.mp hclip).1).2
    | _ =>
      rw [hop] at hinputs
      obtain rfl := Except.ok.inj hinputs
      exact ⟨_, rfl, .cons h.current .nil⟩
  · exact mapM_resolve_parallel h hinputs position'

theorem attachmentOf_parallel (h : r.Parallel R r')
    (hpaths : ∀ p ∈ t.paths, fs'.isFile p = fs.isFile p ∧ R p p)
    (hattachment : attachmentOf r fs position t = .ok attachment) (position' : Nat) :
    ∃ attachment', attachmentOf r' fs' position' t = .ok attachment' ∧
      Option.Rel R attachment attachment' := by
  unfold attachmentOf at hattachment ⊢
  cases hop : t.op with
  | overlayVideo p =>
    rw [hop] at hattachment
    cases hclip : resolve r t.op.typeName position p.clip with
    | error e =>
      rw [hop] at hclip
      simp [hclip, Except.map] at hattachment
    | ok clip =>
      obtain ⟨clip', hclip', hR⟩ := h.exists_resolve? (resolve_eq_ok.mp hclip)
      rw [hop] at hclip
      obtain rfl : some clip = attachment := by simpa [hclip, Except.map] using hattachment
      refine ⟨some clip', ?_, .some hR⟩
      simp [resolve_eq_ok.mpr hclip', Except.map]
  | addImageOverlay p =>
    obtain ⟨hfile, hR⟩ := hpaths ⟨p.image⟩ (by simp [Task.paths, hop])
    rw [hop] at hattachment
    dsimp only at hattachment ⊢
    cases himage : r.resolve? p.image with
    | some image =>
      obtain ⟨image', himage', hR'⟩ := h.exists_resolve? himage
      rw [himage] at hattachment
      obtain rfl := Except.ok.inj hattachment
      rw [himage']
      exact ⟨some image', rfl, .some hR'⟩
    | none =>
      rw [himage] at hattachment
      dsimp only at hattachment
      split_ifs at hattachment with hdeclared hisFile
      -- the second registry declares no more than the first
      all_goals
        have hdeclared' : ¬ r'.isDeclared p.image = true := fun hd =>
          hdeclared (List.contains_iff_mem.mpr (h.declared (List.contains_iff_mem.mp hd)))
        obtain rfl := Except.ok.inj hattachment
        rw [h.resolve?_eq_none himage]
        dsimp only
        rw [if_neg hdeclared', hfile]
      · exact ⟨_, if_pos hisFile, .some hR⟩
      · exact ⟨_, if_neg hisFile, .none⟩
  | _ =>
    rw [hop] at hattachment
    obtain rfl := Except.ok.inj hattachment
    exact ⟨none, rfl, .none⟩

/-- A step that is given its files in one run is given related ones in the other. -/
theorem Given.parallel {k : Kind} {s s' : RunState T} {step : StepFiles}
    (h : Given t k position s step) (hregistry : s.registry.Parallel R s'.registry)
    (hpaths : ∀ p ∈ t.paths, s'.files.isFile p = s.files.isFile p ∧ R p p) (position' : Nat) :
    ∃ step', Given t k position' s' step' ∧ List.Forall₂ R step.inputs step'.inputs ∧
      Option.Rel R step.attachment step'.attachment := by
  obtain ⟨inputs', hinputs', hall⟩ := inputsOf_parallel hregistry hpaths h.inputs position'
  obtain ⟨attachment', hattachment', hrel⟩ :=
    attachmentOf_parallel hregistry hpaths h.attachment position'
  refine ⟨⟨inputs', attachment', s'.scratch.next k.wireName "mp4"⟩,
    ⟨?_, hinputs', hattachment', rfl⟩, hall, hrel⟩
  unfold missedInsert?
  split_ifs
  · exact List.find?_eq_none.mpr fun name _ => by
      simp [Registry.isBlocked, hregistry.blocked]
  · rfl

end Setup

end Montage
