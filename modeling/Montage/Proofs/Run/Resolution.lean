import Montage.Proofs.Plan.Issue
import Montage.Proofs.Run.Contents

/-!
# Names that stand for nothing

In a plan without issues of names, each name is given by a task before those that read it. When a
run comes to a reader, the task that gives the name has been completed, or was a fetch that found
nothing, or was a transformation that was passed over. Only in the last case is the name neither
there nor blocked. Main statement: this is the only way in which such a plan can fail for a name
that stands for nothing. It does happen: what is laid over something is passed over when its clip
was not found, and its own name is not blocked then.
-/

namespace Montage

namespace Registry

/-- The name stands for a file, or never will. -/
def Knows (r : Registry) (name : String) : Prop :=
  (r.resolve? name).isSome = true ∨ r.isBlocked name = true

/-- No name is lost between two states. -/
structure Grows (r r' : Registry) : Prop where
  declared : r'.declared = r.declared
  resolved : ∀ name, (r.resolve? name).isSome = true → (r'.resolve? name).isSome = true
  known : ∀ name, r.Knows name → r'.Knows name

namespace Grows
variable {r r' r'' : Registry}

theorem refl (r : Registry) : r.Grows r := ⟨rfl, fun _ h => h, fun _ h => h⟩

theorem trans (h : r.Grows r') (h' : r'.Grows r'') : r.Grows r'' :=
  ⟨h'.declared.trans h.declared, fun name hname => h'.resolved name (h.resolved name hname),
    fun name hname => h'.known name (h.known name hname)⟩

theorem track (r : Registry) (p : Path) : r.Grows (r.track p) := by
  unfold Registry.track
  split_ifs
  · exact .refl r
  · exact ⟨rfl, fun _ h => h, fun _ h => h⟩

theorem block (r : Registry) (name : String) : r.Grows (r.block name) := by
  unfold Registry.block
  split_ifs
  · exact .refl r
  · refine ⟨rfl, fun _ h => h, fun other h => h.imp_right fun hblocked => ?_⟩
    simp only [isBlocked, List.contains_cons, Bool.or_eq_true] at hblocked ⊢
    exact Or.inr hblocked

theorem bind (r : Registry) (name : String) (p : Path) : r.Grows (r.bind name p) := by
  have hresolved (other : String) (h : (r.resolve? other).isSome = true) :
      ((r.bind name p).resolve? other).isSome = true := by
    simp only [resolve?, Registry.bind, List.lookup_cons] at h ⊢
    split
    · exact Option.isSome_some
    · exact h
  refine ⟨rfl, hresolved, fun other h => ?_⟩
  obtain hother | hblocked := h
  · exact Or.inl (hresolved other hother)
  · by_cases hname : other = name
    · exact Or.inl (by simp [resolve?, Registry.bind, hname])
    · exact Or.inr (by simpa [isBlocked, Registry.bind, hname] using hblocked)

theorem publish (r : Registry) (name? : Option String) (p : Path) (effect : ChainEffect) :
    r.Grows (r.publish name? p effect) := by
  have hcurrent (r : Registry) (q : Path) : r.Grows { r with current := q } :=
    ⟨rfl, fun _ h => h, fun _ h => h⟩
  cases name? with
  | none => cases effect <;> exact hcurrent r _
  | some name => cases effect <;> exact (Grows.bind r name p).trans (hcurrent (r.bind name p) _)

end Grows

theorem knows_block (r : Registry) (name : String) : (r.block name).Knows name := by
  right
  unfold block
  split_ifs with h
  · exact h
  · simp [isBlocked]

theorem knows_publish (r : Registry) {name? : Option String} {name : String} (h : name ∈ name?)
    (p : Path) (effect : ChainEffect) : (r.publish name? p effect).Knows name := by
  obtain rfl := Option.mem_def.mp h
  left
  cases effect <;> simp [resolve?, publish, bind]

end Registry

namespace Setup
variable {T : Type} {su : Setup T} {s : RunState T} {t : Task T} {position : Nat}

/-! ## Tasks that make progress -/

/-- What a task leaves: the names that it found, and its own if it is done. -/
structure Advances (t : Task T) (s out : RunState T) (outcome : Outcome) : Prop where
  grows : s.registry.Grows out.registry
  skipped : out.skipped = s.skipped
  done : outcome = .done → ∀ name ∈ t.output, out.registry.Knows name

/-- A fetch with a name that is run has its name published or blocked. -/
theorem advances_fetch (su : Setup T) (t : Task T) (s : RunState T) :
    Advances t s (su.fetch t s).1 (su.fetch t s).2 ∧
      (t.isFetch = true → ∀ name ∈ t.output, (su.fetch t s).1.registry.Knows name) ∧
      ∀ e, (su.fetch t s).2 ≠ .failed e := by
  have h := sought su t s
  generalize su.fetch t s = result at h ⊢
  obtain ⟨out, outcome⟩ := result
  cases h with
  | aside haside =>
    refine ⟨⟨.refl _, rfl, nofun⟩, fun hfetch name hname => ?_, nofun⟩
    obtain hno | hnone := haside
    · exact absurd (hno.symm.trans hfetch) nofun
    · exact absurd (hnone.symm.trans hname) nofun
  | @missed _ _ name _ hseeks _ =>
    refine ⟨⟨.block _ name, rfl, nofun⟩, fun _ => ?_, nofun⟩
    rw [hseeks.output]
    rintro given ⟨⟩
    exact s.registry.knows_block name
  | @found _ _ name _ p r hseeks _ hr =>
    have hgrows : s.registry.Grows r := by
      rw [hr]
      split_ifs
      · exact .track s.registry p
      · exact .refl s.registry
    have hpublished : ∀ given ∈ t.output, (r.publish (some name) p .sideArtifact).Knows given := by
      rw [hseeks.output]
      rintro given ⟨⟩
      exact r.knows_publish rfl p .sideArtifact
    exact ⟨⟨hgrows.trans (.publish r (some name) p .sideArtifact), rfl, fun _ => hpublished⟩,
      fun _ => hpublished, nofun⟩

theorem grows_of_writeSidecar {position : Nat} {sidecar? : Option Sidecar} {s ready : RunState T}
    (h : writeSidecar position sidecar? s = (ready, .ok ())) :
    s.registry.Grows ready.registry ∧ ready.skipped = s.skipped := by
  obtain ⟨-, rfl⟩ | ⟨sidecar, files, -, -, rfl⟩ := writeSidecar_ok h
  · exact ⟨.refl _, rfl⟩
  · exact ⟨.track s.registry sidecar.path, rfl⟩

variable [TimeScale T] [Spelled T]

theorem advances_transform (su : Setup T) (t : Task T) (k : Kind) (position : Nat)
    (s : RunState T) :
    Advances t s (su.transform t k position s).1 (su.transform t k position s).2 := by
  have hprepared (step : StepFiles) : s.registry.Grows (prepared t step s).registry :=
    .track s.registry step.output
  have h := transformed su t k position s
  generalize su.transform t k position s = result at h ⊢
  obtain ⟨out, outcome⟩ := result
  cases h with
  | missed _ => exact ⟨.refl _, rfl, nofun⟩
  | lacking _ _ => exact ⟨.refl _, rfl, nofun⟩
  | pointless _ _ => exact ⟨hprepared _, rfl, nofun⟩
  | refused _ _ => exact ⟨hprepared _, rfl, nofun⟩
  | unwritten _ _ _ => exact ⟨(hprepared _).trans (.track _ _), rfl, nofun⟩
  | failed _ _ hready _ =>
    obtain ⟨hgrows, hskipped⟩ := grows_of_writeSidecar hready
    exact ⟨(hprepared _).trans hgrows, hskipped, nofun⟩
  | @done step _ _ _ _ _ hready _ =>
    obtain ⟨hgrows, hskipped⟩ := grows_of_writeSidecar hready
    refine ⟨?_, hskipped, fun _ name hname => ?_⟩
    · exact ((hprepared _).trans hgrows).trans (.publish _ t.output step.output .mainChain)
    · exact Registry.knows_publish _ hname step.output .mainChain

/-! ## Tasks that fail for a name -/

/-- The task reads a name that stands for nothing and is not blocked. -/
def Lacks (r : Registry) (t : Task T) (name : String) : Prop :=
  (name ∈ t.inputs ∨ (∃ q, t.op = .overlayVideo q ∧ name = q.clip) ∨
    ∃ q, t.op = .addImageOverlay q ∧ name = q.image ∧ name ∈ r.declared) ∧ ¬ r.Knows name

theorem resolve_unresolved {r : Registry} {step step' name name' : String} {p : Nat}
    {available : List String}
    (h : resolve r step position name' = .error (.unresolved step' p name available)) :
    p = position ∧ name = name' ∧ ¬ r.Knows name' := by
  unfold resolve at h
  split at h
  · exact absurd h nofun
  · rename_i hnone
    split_ifs at h with hblocked
    · exact absurd h nofun
    · obtain ⟨-, rfl, rfl, -⟩ := h
      exact ⟨rfl, rfl, not_or.mpr ⟨by simp [hnone], hblocked⟩⟩

theorem exists_of_mapM_error {A B : Type} {f : A → Except Failure B} {as : List A} {e : Failure}
    (h : as.mapM f = .error e) : ∃ a ∈ as, f a = .error e := by
  induction as with
  | nil => exact absurd h nofun
  | cons a as ih =>
    rw [List.mapM_cons] at h
    cases ha : f a with
    | error e' =>
      rw [ha] at h
      obtain rfl : e' = e := Except.error.inj h
      exact ⟨a, List.mem_cons_self, ha⟩
    | ok b =>
      cases has : as.mapM f with
      | error e' =>
        rw [ha, has] at h
        obtain rfl : e' = e := Except.error.inj h
        obtain ⟨a', ha', he⟩ := ih has
        exact ⟨a', List.mem_cons_of_mem a ha', he⟩
      | ok bs =>
        rw [ha, has] at h
        exact absurd h nofun

omit [TimeScale T] [Spelled T] in
theorem inputsOf_unresolved {r : Registry} {fs : Files} {step name : String} {p : Nat}
    {available : List String}
    (h : inputsOf r fs position t = .error (.unresolved step p name available)) :
    p = position ∧ Lacks r t name := by
  unfold inputsOf at h
  split_ifs at h with hempty
  · split at h <;> exact absurd h nofun
  · obtain ⟨name', hmem, hresolve⟩ := exists_of_mapM_error h
    obtain ⟨rfl, rfl, hunknown⟩ := resolve_unresolved hresolve
    exact ⟨rfl, Or.inl hmem, hunknown⟩

omit [TimeScale T] [Spelled T] in
/-- An image that was not found is passed over before. -/
theorem attachmentOf_unresolved {r : Registry} {fs : Files} {step name : String} {p : Nat}
    {available : List String} (hfound : missedInsert? r t = none)
    (h : attachmentOf r fs position t = .error (.unresolved step p name available)) :
    p = position ∧ Lacks r t name := by
  unfold attachmentOf at h
  split at h
  · rename_i q hop
    cases hresolve : resolve r t.op.typeName position q.clip with
    | ok file =>
      rw [hresolve] at h
      exact absurd h nofun
    | error e =>
      rw [hresolve] at h
      obtain rfl := Except.error.inj h
      obtain ⟨rfl, rfl, hunknown⟩ := resolve_unresolved hresolve
      exact ⟨rfl, Or.inr (Or.inl ⟨q, hop, rfl⟩), hunknown⟩
  · rename_i q hop
    split at h
    · exact absurd h nofun
    · rename_i hnone
      split_ifs at h with hdeclared hfile
      · obtain ⟨-, rfl, rfl, -⟩ := h
        have hkind : t.kind?.any Kind.isOptionalInsert = true := by
          simp [Task.kind?, hop, Operation.kind?, Kind.isOptionalInsert]
        have hunblocked : r.isBlocked q.image ≠ true := by
          unfold missedInsert? at hfound
          rw [if_pos hkind, List.find?_eq_none] at hfound
          exact hfound q.image (by simp [Task.referencedNames, hop])
        refine ⟨rfl, Or.inr (Or.inr ⟨q, hop, rfl, ?_⟩), not_or.mpr ⟨by simp [hnone], hunblocked⟩⟩
        simpa [Registry.isDeclared] using hdeclared
  · exact absurd h nofun

theorem transform_unresolved {k : Kind} {step name : String} {p : Nat} {available : List String}
    (h : (su.transform t k position s).2 = .failed (.unresolved step p name available)) :
    p = position ∧ Lacks s.registry t name := by
  have htransformed := transformed su t k position s
  generalize su.transform t k position s = result at h htransformed
  obtain ⟨out, outcome⟩ := result
  dsimp only at h
  subst h
  cases htransformed with
  | lacking hmissed hlacks =>
    obtain hinputs | hattachment := hlacks
    · exact inputsOf_unresolved hinputs
    · exact attachmentOf_unresolved hmissed hattachment

/-! ## The run -/

/-- What has become of the names of the tasks `before`, the first of the plan `ts`: each stands for
something or is blocked, unless its task is a transformation that was passed over. -/
structure Accounts (ts before : Plan T) (s : RunState T) : Prop where
  declared : s.registry.declared = Plan.names ts
  source : (s.registry.resolve? sourceName).isSome = true
  given : ∀ (i : Nat) t, before[i]? = some t → ∀ name ∈ t.output,
    s.registry.Knows name ∨ t.isFetch = false ∧ ∃ skip ∈ s.skipped, skip.position = i + 1

/-- The task at `p` reads a name that a transformation before it was to give, which was passed over.
-/
def Stranded (ts : Plan T) (skipped : List Skipped) (p : Nat) (name : String) : Prop :=
  ∃ i j t u, i < j ∧ p = j + 1 ∧ ts[i]? = some t ∧ ts[j]? = some u ∧ t.output = some name ∧
    t.isFetch = false ∧ name ∈ ts.reads u ∧ ∃ skip ∈ skipped, skip.position = i + 1

omit [TimeScale T] [Spelled T] in
theorem Accounts.stranded {ts before behind : Plan T} {u : Task T} {name : String}
    (hbackward : ts.Backward) (hsplit : ts = before ++ u :: behind) (h : Accounts ts before s)
    (hlacks : Lacks s.registry u name) : Stranded ts s.skipped (before.length + 1) name := by
  obtain ⟨hread, hunknown⟩ := hlacks
  have hreads : name ∈ ts.reads u := by
    rw [Plan.mem_reads_iff, ← h.declared]
    exact hread
  have hbehind := hbackward.reads
  conv at hbehind => arg 3; rw [hsplit]
  obtain hsource | hgiven := (Plan.readsBehind_append.mp hbehind).2.1 name hreads
  · exact absurd (Or.inl (hsource ▸ h.source)) hunknown
  · rw [List.nil_append] at hgiven
    obtain ⟨t, ht, houtput⟩ := Plan.mem_names.mp hgiven
    obtain ⟨i, hi, rfl⟩ := List.getElem_of_mem ht
    obtain ⟨hfetch, hskip⟩ :=
      (h.given i before[i] (List.getElem?_eq_getElem hi) name houtput).resolve_left hunknown
    refine ⟨i, before.length, before[i], u, hi, rfl, ?_, ?_, houtput, hfetch, hreads, hskip⟩
    · rw [hsplit, List.getElem?_append_left hi, List.getElem?_eq_getElem hi]
    · rw [hsplit]
      simp

omit [TimeScale T] [Spelled T] in
theorem Accounts.initial (source : Path) (ts : Plan T) (scratch : Scratch) (files : Files) :
    Accounts ts [] (RunState.start source ts scratch files) where
  declared := rfl
  source := rfl
  given i t ht := absurd ht (by simp)

omit [TimeScale T] [Spelled T] in
theorem Accounts.note {ts before : Plan T} (h : Accounts ts before s) (events : List (Event T)) :
    Accounts ts before (s.note events) := ⟨h.declared, h.source, h.given⟩

omit [TimeScale T] [Spelled T] in
theorem Accounts.advance {ts before : Plan T} {out : RunState T} {u : Task T}
    (h : Accounts ts before s) (hgrows : s.registry.Grows out.registry)
    (hskipped : s.skipped ⊆ out.skipped)
    (hown : ∀ name ∈ u.output, out.registry.Knows name ∨
      u.isFetch = false ∧ ∃ skip ∈ out.skipped, skip.position = before.length + 1) :
    Accounts ts (before ++ [u]) out where
  declared := hgrows.declared.trans h.declared
  source := hgrows.resolved _ h.source
  given i t ht name hname := by
    rw [List.getElem?_append] at ht
    split_ifs at ht with hi
    · refine (h.given i t ht name hname).imp (hgrows.known name) (And.imp_right ?_)
      rintro ⟨skip, hskip, hposition⟩
      exact ⟨skip, hskipped hskip, hposition⟩
    · have hlast : i - before.length = 0 ∧ u = t := by
        cases hd : i - before.length <;> simp_all
      obtain ⟨hd, rfl⟩ := hlast
      rw [show i = before.length by omega]
      exact hown name hname

theorem advances_act (su : Setup T) {k : Kind} (hkind : t.kind? = some k) (position : Nat)
    (s : RunState T) :
    Advances t s (su.act t k position s).1 (su.act t k position s).2 ∧
      (t.isFetch = true → ∀ name ∈ t.output, (su.act t k position s).1.registry.Knows name) := by
  have hfetch : t.isFetch = k.isFetch := by simp [Task.isFetch, hkind]
  unfold act
  split_ifs with hk
  · obtain ⟨hadvances, hknows, -⟩ := advances_fetch su t s
    exact ⟨hadvances, hknows⟩
  · exact ⟨advances_transform su t k position s, fun h => absurd (hfetch.symm.trans h) hk⟩

theorem act_unresolved {k : Kind} {step name : String} {p : Nat} {available : List String}
    (h : (su.act t k position s).2 = .failed (.unresolved step p name available)) :
    p = position ∧ Lacks s.registry t name := by
  unfold act at h
  split_ifs at h
  · exact absurd h ((advances_fetch su t s).2.2 _)
  · exact transform_unresolved h

/-- A task that does not end the run is accounted for, and one that fails for a name lacks it. -/
theorem accounts_runTask {ts before : Plan T} (su : Setup T) (total : Nat) (u : Task T)
    (h : Accounts ts before s) :
    match su.runTask total (before.length + 1) u s with
    | (out, .ok ()) => Accounts ts (before ++ [u]) out
    | (out, .error e) => out.skipped = s.skipped ∧
      ∀ step p name available, e = .unresolved step p name available →
        p = before.length + 1 ∧ Lacks s.registry u name := by
  cases hkind : u.kind? with
  | none =>
    unfold runTask
    rw [hkind]
    refine h.advance (.refl _) (List.subset_append_left _ _) fun name _ => Or.inr ⟨?_, ?_⟩
    · simp [Task.isFetch, hkind]
    · exact ⟨_, List.mem_append_right _ List.mem_cons_self, rfl⟩
  | some k =>
    obtain ⟨hadvances, hfetched⟩ := advances_act su hkind (before.length + 1)
      (s.note [.started (before.length + 1) total u])
    rw [runTask_of_kind su hkind]
    cases hact : su.act u k (before.length + 1)
        (s.note [.started (before.length + 1) total u]) with
    | mk out outcome =>
      rw [hact] at hadvances hfetched
      cases outcome with
      | done =>
        exact h.advance hadvances.grows (fun _ hskip => hadvances.skipped ▸ hskip)
          fun name hname => Or.inl (hadvances.done rfl name hname)
      | skipped reason =>
        have hskipped : out.skipped = s.skipped := hadvances.skipped
        refine h.advance hadvances.grows (hskipped ▸ List.subset_append_left _ _) ?_
        intro name hname
        by_cases hfetch : u.isFetch = true
        · exact Or.inl (hfetched hfetch name hname)
        · exact Or.inr ⟨Bool.eq_false_iff.mpr hfetch, _,
            List.mem_append_right _ List.mem_cons_self, rfl⟩
      | failed e =>
        refine ⟨hadvances.skipped, ?_⟩
        rintro step p name available rfl
        exact act_unresolved (s := s.note [.started (before.length + 1) total u])
          (congrArg Prod.snd hact)

/-- A run that fails for a name has passed over the transformation that was to give it. -/
theorem runFrom_unresolved {ts before rest : Plan T} {out : RunState T} {total p : Nat}
    {step name : String} {available : List String} (hbackward : ts.Backward)
    (hsplit : ts = before ++ rest) (h : Accounts ts before s)
    (hrun : su.runFrom total (before.length + 1) rest s =
      (out, .error (.unresolved step p name available))) :
    Stranded ts out.skipped p name := by
  induction rest generalizing before s with
  | nil => exact absurd (congrArg Prod.snd hrun) nofun
  | cons u rest ih =>
    have htask := accounts_runTask su total u h
    unfold runFrom at hrun
    cases hu : su.runTask total (before.length + 1) u s with
    | mk next answer =>
      rw [hu] at htask hrun
      cases answer with
      | error e =>
        obtain ⟨rfl, herror⟩ := Prod.mk.inj hrun
        obtain ⟨hskipped, hlacks⟩ := htask
        obtain ⟨rfl, hlacks⟩ := hlacks step p name available (Except.error.inj herror)
        rw [hskipped]
        exact h.stranded hbackward hsplit hlacks
      | ok _ =>
        have hrest : ts = before ++ [u] ++ rest := by simp [hsplit]
        apply ih hrest htask
        rw [List.length_append, List.length_singleton]
        exact hrun

omit [TimeScale T] [Spelled T] in
theorem finish_skipped (output : Path) (answer : Except Failure Unit) (s : RunState T) :
    (finish output answer s).state.skipped = s.skipped := by
  cases answer <;> rfl

/-- What goes wrong with the final copy is no failure of a task. -/
theorem position?_of_finalize {artifact dest : Path} {fs : Files} {e : Failure}
    (h : (Scratch.finalize artifact dest fs).1 = .error e) : e.position? = none := by
  unfold Scratch.finalize at h
  split_ifs at h
  · exact Except.error.inj h ▸ rfl
  · split at h
    · exact Except.error.inj h ▸ rfl
    · split at h
      · exact absurd h nofun
      · exact Except.error.inj h ▸ rfl

theorem finalize_ne_unresolved {artifact dest : Path} {fs : Files} {step name : String} {p : Nat}
    {available : List String} :
    (Scratch.finalize artifact dest fs).1 ≠ .error (.unresolved step p name available) :=
  fun h => absurd (position?_of_finalize h) nofun

/-- A plan without issues of names can fail for a name that stands for nothing only where it reads
what a transformation was to give that was passed over. -/
theorem run_unresolved (su : Setup T) {ts : Plan T}
    (hissues : ∀ e ∈ ts.issues, e.isNaming = false) {source output : Path} {scratch : Scratch}
    {files : Files} {step name : String} {p : Nat} {available : List String}
    (hfails : (su.run ts source output scratch files).answer =
      .error (.unresolved step p name available)) :
    Stranded ts (su.run ts source output scratch files).state.skipped p name := by
  unfold run at hfails ⊢
  split_ifs at hfails ⊢ with hsource
  · unfold runOn at hfails ⊢
    dsimp only at hfails ⊢
    cases hrun : su.runFrom ts.length 1 ts
        ((RunState.start source ts scratch files).note [.began ts.length source su.tool.name]) with
    | mk s answer =>
      rw [hrun] at hfails
      cases answer with
      | error e =>
        obtain rfl : e = .unresolved step p name available := Except.error.inj hfails
        rw [finish_skipped]
        exact runFrom_unresolved (Plan.backward_iff.mpr hissues) (List.nil_append ts).symm
          ((Accounts.initial source ts scratch files).note _) hrun
      | ok _ =>
        dsimp only [persist] at hfails
        cases hfinal : Scratch.finalize s.registry.current output s.files with
        | mk last fs =>
          rw [hfinal] at hfails
          cases last with
          | error e =>
            obtain rfl : e = .unresolved step p name available := Except.error.inj hfails
            exact absurd (congrArg Prod.fst hfinal) finalize_ne_unresolved
          | ok _ => exact absurd hfails nofun
  · exact absurd hfails nofun

/-- A clip that is not found, an overlay of it, and a task that works on the result. -/
def strandedPlan : Plan Float :=
  [⟨.fetchVideo ⟨"city", [], 30, "landscape"⟩, some "b", []⟩,
    ⟨.overlayVideo ⟨1, some 5, "b"⟩, some "v", []⟩,
    ⟨.resize ⟨1920, some 1080⟩, none, ["v"]⟩]

/-- The plan run on the desk, with nothing to be found. -/
def strandedRun : Finished Float :=
  { deskSetup with content := .nothing }.run strandedPlan ⟨"/in.mp4"⟩ ⟨"/out.mp4"⟩ deskScratch desk

theorem strandedRun_answer :
    strandedRun.answer = .error (.unresolved "resize" 3 "v" [sourceName]) := by
  have hfailure : (match strandedRun.answer with
      | .error e => some e
      | .ok _ => none) = some (.unresolved "resize" 3 "v" [sourceName]) := by decide +kernel
  split at hfailure
  · rename_i heq
    rw [heq, Option.some.inj hfailure]
  · exact absurd hfailure nofun

/-- A plan without any issue that fails for a name that stands for nothing. -/
theorem run_strandedPlan :
    strandedPlan.issues = [] ∧
      strandedRun.answer = .error (.unresolved "resize" 3 "v" [sourceName]) :=
  ⟨by decide +kernel, strandedRun_answer⟩

/-- The overlay was passed over. -/
theorem stranded_strandedRun :
    (∀ e ∈ strandedPlan.issues, e.isNaming = false) ∧
      strandedRun.answer = .error (.unresolved "resize" 3 "v" [sourceName]) ∧
      Stranded strandedPlan strandedRun.state.skipped 3 "v" := by
  have hissues : ∀ e ∈ strandedPlan.issues, e.isNaming = false := by decide +kernel
  exact ⟨hissues, strandedRun_answer, run_unresolved _ hissues strandedRun_answer⟩

end Setup

end Montage
