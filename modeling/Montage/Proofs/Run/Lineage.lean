import Montage.Proofs.Run.Contents

/-!
# What the tasks of a run read

A run is followed by the list of the tasks that it has completed, each with its artifact. The list
alone says what a name stands for and what a task without inputs works on; the registry of the run
reflects it, and so a call reads what its task has to read. A blocked name, a tracked file and a
task that is passed over leave the list as it is.
-/

namespace Montage

/-- A task that was completed, and what came of it. -/
structure Made (T : Type) where
  position : Nat
  task : Task T
  artifact : Path

namespace Made
variable {T : Type}

/-- What a name stands for: the artifact of the last task that gives it, or else the source. -/
def named (source : Path) (made : List (Made T)) (name : String) : Option Path :=
  match made.reverse.find? fun m => m.task.output == some name with
  | some m => some m.artifact
  | none => if name = sourceName then some source else none

/-- What a task without inputs works on: the last artifact that is not fetched, or else the source.
-/
def chain (source : Path) (made : List (Made T)) : Path :=
  match made.reverse.find? fun m => !m.task.isFetch with
  | some m => m.artifact
  | none => source

theorem named_append (source : Path) (made : List (Made T)) (m : Made T) (name : String) :
    named source (made ++ [m]) name =
      if m.task.output = some name then some m.artifact else named source made name := by
  unfold named
  rw [List.reverse_append, List.reverse_singleton, List.singleton_append, List.find?_cons]
  by_cases h : m.task.output = some name
  · simp [h]
  · have hne : (m.task.output == some name) = false := by simpa using h
    simp only [hne, h, if_false]

/-- A name that no completed task gives stands for nothing, unless it is that of the source. -/
theorem named_eq_none {source : Path} {made : List (Made T)} {name : String}
    (hname : name ≠ sourceName) (h : ∀ m ∈ made, m.task.output ≠ some name) :
    named source made name = none := by
  have hfind : made.reverse.find? (fun m => m.task.output == some name) = none :=
    List.find?_eq_none.mpr fun m hm => by simpa using h m (List.mem_reverse.mp hm)
  unfold named
  rw [hfind]
  exact if_neg hname

theorem chain_append (source : Path) (made : List (Made T)) (m : Made T) :
    chain source (made ++ [m]) =
      if m.task.isFetch = true then chain source made else m.artifact := by
  unfold chain
  rw [List.reverse_append, List.reverse_singleton, List.singleton_append, List.find?_cons]
  cases m.task.isFetch <;> simp

end Made

namespace Task
variable {T : Type}

/-- The first file that a task reads. -/
def primary? (source : Path) (made : List (Made T)) (t : Task T) : Option Path :=
  match t.inputs with
  | [] => some (Made.chain source made)
  | name :: _ => Made.named source made name

/-- A call reads what its task has to read once these tasks are completed. -/
def Reads (source : Path) (made : List (Made T)) (t : Task T) (i : Invocation) : Prop :=
  match t.op with
  | .concat p =>
    if t.inputs = [] then i.inputs.Sublist p.clips
    else i.inputs.map some = t.inputs.map (Made.named source made)
  | .overlayVideo p => ∃ primary clip, t.primary? source made = some primary ∧
      Made.named source made p.clip = some clip ∧ i.inputs = [primary, clip]
  | .addImageOverlay p => ∃ primary, t.primary? source made = some primary ∧
      i.inputs = [primary, (Made.named source made p.image).getD ⟨p.image⟩]
  | _ => ∃ primary, t.primary? source made = some primary ∧ i.inputs = [primary]

end Task

/-- A registry says what the list of the completed tasks says. -/
structure Reflects {T : Type} (source : Path) (made : List (Made T)) (r : Registry) : Prop where
  named : ∀ name, r.resolve? name = Made.named source made name
  current : r.current = Made.chain source made
  produced : ∀ t ∈ r.transients, t.state = .produced

namespace Reflects
variable {T : Type} {source p : Path} {made : List (Made T)} {r : Registry}

theorem initial (source : Path) (declared : List String) :
    Reflects source ([] : List (Made T)) (.start source declared) where
  named name := by
    unfold Registry.resolve? Registry.start Made.named
    by_cases h : name = sourceName
    · simp [h]
    · have hne : (name == sourceName) = false := by simpa using h
      simp [List.lookup_cons, hne, h]
  current := rfl
  produced _ ht := absurd ht List.not_mem_nil

theorem track (h : Reflects source made r) (p : Path) : Reflects source made (r.track p) where
  named name := by
    rw [← h.named name, Registry.resolve?, Registry.resolve?, Registry.track_names]
  current := by rw [Registry.track_current, h.current]
  produced t ht := by
    rcases Registry.mem_track ht with hold | rfl
    · exact h.produced t hold
    · rfl

theorem block (h : Reflects source made r) (name : String) :
    Reflects source made (r.block name) where
  named other := by
    rw [← h.named other, Registry.resolve?, Registry.resolve?, Registry.block_names]
  current := by rw [Registry.block_current, h.current]
  produced := by
    rw [Registry.block_transients]
    exact h.produced

/-- To publish an artifact is to complete its task. -/
theorem publish (h : Reflects source made r) {t : Task T} (position : Nat) (p : Path)
    (effect : ChainEffect) (heffect : effect = .mainChain ↔ t.isFetch = false) :
    Reflects source (made ++ [⟨position, t, p⟩]) (r.publish t.output p effect) where
  named name := by
    rw [Made.named_append, ← h.named name]
    unfold Registry.resolve? Registry.publish
    cases houtput : t.output with
    | none => cases effect <;> simp
    | some given =>
      by_cases hname : name = given
      · cases effect <;> simp [Registry.bind, hname]
      · have hne : (name == given) = false := by simpa using hname
        have hne' : given ≠ name := fun heq => hname heq.symm
        cases effect <;> simp [Registry.bind, List.lookup_cons, hne, hne']
  current := by
    rw [Made.chain_append]
    cases effect with
    | mainChain => simp [heffect.mp rfl]
    | sideArtifact =>
      have hfetch : t.isFetch = true := by
        rw [← Bool.not_eq_false]
        exact fun hfalse => absurd (heffect.mpr hfalse) (by simp)
      simp [hfetch, h.current]
  produced := by
    rw [Registry.publish_transients]
    exact h.produced

end Reflects

/-! ## What a step is given -/

namespace Setup
variable {T : Type} {source : Path} {made : List (Made T)} {r : Registry} {fs : Files}
  {position : Nat} {t : Task T}

theorem resolve_eq_ok {step name : String} {p : Path} :
    resolve r step position name = .ok p ↔ r.resolve? name = some p := by
  unfold resolve
  cases hp : r.resolve? name with
  | some q => simp
  | none =>
    dsimp only
    split_ifs
    · simp
    · simp

theorem mapM_resolve_eq_ok {step : String} {names : List String} {ps : List Path}
    (h : names.mapM (resolve r step position) = .ok ps) :
    ps.map some = names.map r.resolve? := by
  induction names generalizing ps with
  | nil =>
    obtain rfl : [] = ps := by simpa [pure, Except.pure] using h
    rfl
  | cons name names ih =>
    rw [List.mapM_cons] at h
    cases hname : resolve r step position name with
    | error e => simp [hname, bind, Except.bind] at h
    | ok p =>
      cases hnames : names.mapM (resolve r step position) with
      | error e => simp [hname, hnames, bind, Except.bind] at h
      | ok rest =>
        obtain rfl : p :: rest = ps := by
          simpa [hname, hnames, bind, Except.bind, pure, Except.pure] using h
        rw [List.map_cons, List.map_cons, ih hnames, resolve_eq_ok.mp hname]

/-- The first of the files that a step is given is what its task has to read first. -/
theorem head?_inputsOf (h : Reflects source made r) {inputs : List Path} {primary : Path}
    (hop : ∀ p, t.op ≠ .concat p) (hinputs : inputsOf r fs position t = .ok inputs)
    (hhead : inputs.head? = some primary) : t.primary? source made = some primary := by
  unfold inputsOf at hinputs
  unfold Task.primary?
  cases hnames : t.inputs with
  | nil =>
    rw [hnames] at hinputs
    have hcurrent : [r.current] = inputs := by
      simp only [List.isEmpty_nil, if_true] at hinputs
      exact Except.ok.inj hinputs
    rw [← hcurrent] at hhead
    rw [← Option.some.inj hhead, h.current]
  | cons name rest =>
    rw [hnames] at hinputs
    simp only [List.isEmpty_cons, Bool.false_eq_true, if_false] at hinputs
    have hall := mapM_resolve_eq_ok hinputs
    cases inputs with
    | nil => simp at hhead
    | cons p ps =>
      obtain rfl := Option.some.inj hhead
      rw [List.map_cons, List.map_cons] at hall
      dsimp only
      rw [← h.named name]
      exact (List.cons.inj hall).1.symm

/-- A call that uses what a step is given reads what its task has to read. -/
theorem reads_of_uses (h : Reflects source made r) {inputs : List Path} {attachment : Option Path}
    {output : Path} {i : Invocation} (hinputs : inputsOf r fs position t = .ok inputs)
    (hattachment : attachmentOf r fs position t = .ok attachment)
    (huses : t.op.Uses ⟨inputs, attachment, output⟩ i.inputs) : t.Reads source made i := by
  have hprimary {primary : Path} (hhead : inputs.head? = some primary)
      (hop : ∀ p, t.op ≠ .concat p) : t.primary? source made = some primary :=
    head?_inputsOf h hop hinputs hhead
  unfold Task.Reads
  cases hop : t.op with
  | concat p =>
    rw [hop] at huses
    have hall : i.inputs = inputs := huses
    unfold inputsOf at hinputs
    rw [hop] at hinputs
    rw [hall]
    dsimp only at hinputs ⊢
    split_ifs at hinputs with hempty
    · rw [if_pos (List.isEmpty_iff.mp hempty), ← Except.ok.inj hinputs]
      exact List.filter_sublist
    · rw [if_neg fun hnil => hempty (List.isEmpty_iff.mpr hnil), mapM_resolve_eq_ok hinputs]
      exact List.map_congr_left fun name _ => h.named name
  | overlayVideo p =>
    rw [hop] at huses
    obtain ⟨primary, clip, hhead, hclip, hreads⟩ := huses
    unfold attachmentOf at hattachment
    rw [hop] at hattachment
    dsimp only at hattachment hclip
    refine ⟨primary, clip, hprimary hhead (by simp [hop]), ?_, hreads⟩
    cases hresolve : resolve r (Operation.overlayVideo p).typeName position p.clip with
    | error e => simp [hresolve, Except.map] at hattachment
    | ok q =>
      have hq : some q = attachment := by simpa [hresolve, Except.map] using hattachment
      rw [← h.named p.clip, resolve_eq_ok.mp hresolve, hq, hclip]
  | addImageOverlay p =>
    rw [hop] at huses
    obtain ⟨primary, image, hhead, himage, hreads⟩ := huses
    unfold attachmentOf at hattachment
    rw [hop] at hattachment
    dsimp only at hattachment himage
    refine ⟨primary, hprimary hhead (by simp [hop]), ?_⟩
    rw [← h.named p.image, hreads]
    cases hresolve : r.resolve? p.image with
    | some q =>
      have hq : some q = attachment := by simpa [hresolve] using hattachment
      rw [← hq] at himage
      rw [Option.some.inj himage, Option.getD_some]
    | none =>
      simp only [hresolve] at hattachment
      split_ifs at hattachment
      · have hq : some ⟨p.image⟩ = attachment := Except.ok.inj hattachment
        rw [← hq] at himage
        rw [← Option.some.inj himage, Option.getD_none]
      · have hq : none = attachment := Except.ok.inj hattachment
        rw [← hq] at himage
        exact absurd himage (by simp)
  | _ =>
    rw [hop] at huses
    obtain ⟨primary, hhead, hreads⟩ := huses
    exact ⟨primary, hprimary hhead (by simp [hop]), hreads⟩

end Setup

end Montage
