import Montage.Proofs.Run.Accounting
import Montage.Proofs.Run.Ancestry
import Montage.Proofs.Run.Early
import Montage.Proofs.Run.Without

/-!
# Names that are missed and given

A fetch that finds nothing blocks its name, and to give a name is to unblock it; but a name that is
given already is blocked all the same when a fetch misses it. Those who look at a name do not agree
on it then: what may be left out is passed over because the name is blocked, and what has to be done
reads the file that it stands for. Main statement: this is so of a name behind a part of a run if
and only if a fetch has missed it after it was given, and it was not given again. The source is
given its name at the start.
-/

namespace Montage

/-! ## Blocked names -/

namespace Registry
variable {r r' : Registry} {name other : String}

/-- The name is blocked, and stands for a file. -/
def AtOdds (r : Registry) (name : String) : Prop :=
  r.isBlocked name = true ∧ (r.resolve? name).isSome = true

/-- The names of two registries stand for the same files, and the same ones are blocked. -/
structure Agrees (r r' : Registry) : Prop where
  names : r'.names = r.names
  blocked : r'.blocked = r.blocked

namespace Agrees

theorem refl (r : Registry) : r.Agrees r := ⟨rfl, rfl⟩

theorem trans {r'' : Registry} (h : r.Agrees r') (h' : r'.Agrees r'') : r.Agrees r'' :=
  ⟨h'.names.trans h.names, h'.blocked.trans h.blocked⟩

theorem track (r : Registry) (p : Path) : r.Agrees (r.track p) :=
  ⟨track_names r p, track_blocked r p⟩

theorem resolve? (h : r.Agrees r') (name : String) : r'.resolve? name = r.resolve? name := by
  rw [Registry.resolve?, h.names, Registry.resolve?]

theorem isBlocked (h : r.Agrees r') (name : String) : r'.isBlocked name = r.isBlocked name := by
  rw [Registry.isBlocked, h.blocked, Registry.isBlocked]

theorem atOdds_iff (h : r.Agrees r') (name : String) : r'.AtOdds name ↔ r.AtOdds name := by
  rw [AtOdds, h.isBlocked, h.resolve?, AtOdds]

end Agrees

theorem isBlocked_block :
    (r.block name).isBlocked other = true ↔ other = name ∨ r.isBlocked other = true := by
  unfold block
  split_ifs with h
  · constructor
    · exact Or.inr
    · rintro (rfl | hother)
      · exact h
      · exact hother
  · simp [isBlocked]

theorem isBlocked_publish {name? : Option String} {p : Path} {effect : ChainEffect} :
    (r.publish name? p effect).isBlocked other = true ↔
      r.isBlocked other = true ∧ name? ≠ some other := by
  cases name? with
  | none => cases effect <;> simp [publish, isBlocked]
  | some name =>
    have hbind : (r.bind name p).isBlocked other = true ↔
        r.isBlocked other = true ∧ some name ≠ some other := by
      simp [isBlocked, bind, ne_comm (a := other)]
    cases effect <;> exact hbind

theorem isSome_resolve?_publish {name? : Option String} {p : Path} {effect : ChainEffect} :
    ((r.publish name? p effect).resolve? other).isSome = true ↔
      (r.resolve? other).isSome = true ∨ name? = some other := by
  cases name? with
  | none => cases effect <;> simp [publish, resolve?]
  | some name =>
    have hbind : ((r.bind name p).resolve? other).isSome = true ↔
        (r.resolve? other).isSome = true ∨ some name = some other := by
      by_cases hname : other = name
      · simp [hname, resolve?, bind]
      · have hne : (other == name) = false := by simpa using hname
        simp [resolve?, bind, List.lookup_cons, hne, Ne.symm hname]
    cases effect <;> exact hbind

end Registry

/-! ## What a task does to names -/

namespace Setup
variable {T : Type} {su : Setup T} {t : Task T} {s : RunState T} {name : String} {position : Nat}

/-- The task is a fetch that finds nothing for its name. -/
structure Misses (su : Setup T) (t : Task T) (s : RunState T) (name : String) : Prop where
  fetch : t.isFetch = true
  output : t.output = some name
  found : su.artifact? t s = none

/-- What comes of a task for the names of a run. -/
inductive Renames (su : Setup T) (t : Task T) (s : RunState T) : Registry → Outcome → Prop
  | aside {r : Registry} {outcome : Outcome} (h : s.registry.Agrees r) (houtcome : outcome ≠ .done)
      (hfound : ∀ name, ¬ su.Misses t s name) : Renames su t s r outcome
  | missed {name reason : String} (h : su.Misses t s name) :
      Renames su t s (s.registry.block name) (.skipped reason)
  | given {r : Registry} (p : Path) (effect : ChainEffect) (h : s.registry.Agrees r)
      (hfound : ∀ name, ¬ su.Misses t s name) : Renames su t s (r.publish t.output p effect) .done

theorem Misses.unique {other : String} (h : su.Misses t s name) (h' : su.Misses t s other) :
    name = other := Option.some.inj (h.output.symm.trans h'.output)

theorem renames_fetch (su : Setup T) (s : RunState T) (hfetch : t.isFetch = true) :
    Renames su t s (su.fetch t s).1.registry (su.fetch t s).2 := by
  have h := sought su t s
  generalize su.fetch t s = result at h ⊢
  obtain ⟨out, outcome⟩ := result
  cases h with
  | aside haside =>
    refine .aside (.refl _) nofun fun name h => ?_
    obtain hno | hnone := haside
    · exact absurd (hno.symm.trans hfetch) nofun
    · exact absurd (hnone.symm.trans h.output) nofun
  | missed hseeks hfound => exact .missed ⟨hfetch, hseeks.output, hseeks.artifact?.trans hfound⟩
  | @found _ _ _ _ p r hseeks hfound hr =>
    have hhit : ∀ name, ¬ su.Misses t s name := fun name h =>
      absurd (h.found.symm.trans (hseeks.artifact?.trans hfound)) nofun
    have hagrees : s.registry.Agrees r := by
      rw [hr]
      split_ifs
      · exact .track s.registry p
      · exact .refl s.registry
    rw [← hseeks.output]
    exact .given p .sideArtifact hagrees hhit

variable [TimeScale T] [Spelled T]

omit [TimeScale T] [Spelled T] in
/-- Neither the paths taken for a step nor its sidecar have a name. -/
theorem agrees_of_writeSidecar {sidecar? : Option Sidecar} {step : StepFiles} {ready : RunState T}
    (h : writeSidecar position sidecar? (prepared t step s) = (ready, .ok ())) :
    s.registry.Agrees ready.registry := by
  have hprepared : s.registry.Agrees (prepared t step s).registry := .track s.registry step.output
  obtain ⟨-, rfl⟩ | ⟨sidecar, files, -, -, rfl⟩ := writeSidecar_ok h
  · exact hprepared
  · exact hprepared.trans (.track _ sidecar.path)

theorem renames_transform (su : Setup T) {k : Kind} (position : Nat) (s : RunState T)
    (hfetch : t.isFetch = false) : Renames su t s (su.transform t k position s).1.registry
      (su.transform t k position s).2 := by
  have hfound : ∀ name, ¬ su.Misses t s name := fun name h =>
    absurd (hfetch.symm.trans h.fetch) nofun
  have h := transformed su t k position s
  generalize su.transform t k position s = result at h ⊢
  obtain ⟨out, outcome⟩ := result
  cases h with
  | missed _ => exact .aside (.refl _) nofun hfound
  | lacking _ _ => exact .aside (.refl _) nofun hfound
  | @pointless step _ _ _ => exact .aside (.track s.registry step.output) nofun hfound
  | @refused step _ _ _ => exact .aside (.track s.registry step.output) nofun hfound
  | @unwritten step _ sidecar _ _ _ _ =>
    have hprepared : s.registry.Agrees (prepared t step s).registry :=
      .track s.registry step.output
    exact .aside (hprepared.trans (.track _ sidecar.path)) nofun hfound
  | failed _ _ hready _ =>
    have hagrees := agrees_of_writeSidecar hready
    exact .aside hagrees nofun hfound
  | @done step _ _ _ _ _ hready _ =>
    have hagrees := agrees_of_writeSidecar hready
    exact .given step.output .mainChain hagrees hfound

theorem renames_act (su : Setup T) {k : Kind} (hkind : t.kind? = some k) (position : Nat)
    (s : RunState T) : Renames su t s (su.act t k position s).1.registry
      (su.act t k position s).2 := by
  have htask : t.isFetch = k.isFetch := by simp [Task.isFetch, hkind]
  unfold act
  split_ifs with hfetch
  · exact renames_fetch su s (htask.trans hfetch)
  · exact renames_transform su position s (htask.trans (Bool.eq_false_iff.mpr hfetch))

omit [TimeScale T] [Spelled T] in
/-- A task that is done gives its name, and a fetch that finds nothing blocks it. -/
theorem Renames.names {r : Registry} {outcome : Outcome} (h : Renames su t s r outcome) :
    (∀ name, (r.resolve? name).isSome = true ↔
      (s.registry.resolve? name).isSome = true ∨ t.output = some name ∧ outcome = .done) ∧
    (∀ name, r.isBlocked name = true ↔ su.Misses t s name ∨
      s.registry.isBlocked name = true ∧ ¬ (t.output = some name ∧ outcome = .done)) ∧
    ∀ name, su.Misses t s name → outcome ≠ .done := by
  cases h with
  | aside hagrees houtcome hfound =>
    simp [hagrees.resolve?, hagrees.isBlocked, houtcome, hfound]
  | @missed missed _ hmiss =>
    refine ⟨fun name => ?_, fun name => ?_, fun _ _ => nofun⟩
    · simp [Registry.resolve?, Registry.block_names]
    · rw [Registry.isBlocked_block]
      have hname : name = missed ↔ su.Misses t s name :=
        ⟨fun heq => heq ▸ hmiss, fun hother => hother.unique hmiss⟩
      simp [hname]
  | given p effect hagrees hfound =>
    refine ⟨fun name => ?_, fun name => ?_, fun name hmiss => absurd hmiss (hfound name)⟩
    · rw [Registry.isSome_resolve?_publish, hagrees.resolve?]
      simp
    · rw [Registry.isBlocked_publish, hagrees.isBlocked]
      simp [hfound]

omit [TimeScale T] [Spelled T] in
theorem misses_note {events : List (Event T)} :
    su.Misses t (s.note events) name ↔ su.Misses t s name :=
  ⟨fun h => ⟨h.fetch, h.output, h.found⟩, fun h => ⟨h.fetch, h.output, h.found⟩⟩

/-- A task that counts as a step gives its name, and a fetch that finds nothing blocks it. -/
theorem names_runTask (su : Setup T) {source : Path} {made : List (Made T)}
    (h : Reflects source made s.registry) (total position : Nat) (t : Task T) :
    let out := (su.runTask total position t s).1
    (∀ name, (out.registry.resolve? name).isSome = true ↔
      (s.registry.resolve? name).isSome = true ∨ t.output = some name ∧ s.steps < out.steps) ∧
    (∀ name, out.registry.isBlocked name = true ↔ su.Misses t s name ∨
      s.registry.isBlocked name = true ∧ ¬ (t.output = some name ∧ s.steps < out.steps)) ∧
    ∀ name, su.Misses t s name → ¬ s.steps < out.steps := by
  dsimp only
  cases hkind : t.kind? with
  | none =>
    have hfetch : t.isFetch = false := by simp [Task.isFetch, hkind]
    have hfound : ∀ name, ¬ su.Misses t s name := fun name hmiss =>
      Bool.false_ne_true (hfetch.symm.trans hmiss.fetch)
    rw [runTask_of_unknown su hkind]
    simp [RunState.note, hfound]
  | some k =>
    have hnames := (renames_act su hkind position (s.note [.started position total t])).names
    obtain ⟨events, htold⟩ := told_act su (s := s.note [.started position total t]) h hkind position
    have hsteps : (su.act t k position (s.note [.started position total t])).1.steps = s.steps :=
      htold.steps
    simp only [misses_note] at hnames
    rw [runTask_of_kind su hkind]
    generalize su.act t k position (s.note [.started position total t]) = result
      at hnames hsteps ⊢
    obtain ⟨out, outcome⟩ := result
    dsimp only at hsteps
    cases outcome <;> simpa [RunState.note, hsteps] using hnames

/-! ## Those who look at a name -/

/-- There being nothing to do is no reason that names a name. -/
theorem ne_missed_of_recipe {op : Operation T} {step : StepFiles} {font : Path} {scratch : Scratch}
    {files : Files} {reason : String} (h : op.recipe step font scratch files = .skip reason) :
    reason ≠ "'" ++ name ++ "' was never fetched" := by
  have hquote : ("'" ++ name ++ "' was never fetched").toList.head? = some '\'' := by simp
  have hreason : reason.toList.head? ≠ some '\'' := by
    unfold Operation.recipe at h
    split at h
    · obtain rfl := Recipe.skip.inj h
      decide
    · cases op <;> dsimp only [Operation.recipeFor] at h <;> (try split at h) <;> cases h <;> simp
  rintro rfl
  exact hreason hquote

omit [TimeScale T] [Spelled T] in
/-- An insert that refers to a name, and may be left out for no other. -/
structure Inserts (r : Registry) (t : Task T) (k : Kind) (name : String) : Prop where
  kind : t.kind? = some k
  optional : k.isOptionalInsert = true
  refers : name ∈ t.referencedNames
  only : ∀ other ∈ t.referencedNames, r.isBlocked other = true → other = name

omit [TimeScale T] [Spelled T] in
/-- A transformation that has to be done and reads a name, and can read all else. -/
structure Consumes (r : Registry) (t : Task T) (k : Kind) (name : String) : Prop where
  kind : t.kind? = some k
  required : k.isOptionalInsert = false
  reads : name ∈ t.inputs
  only : ∀ other ∈ t.inputs, other ≠ name → (r.resolve? other).isSome = true

/-- An insert is passed over for a name if and only if the name is blocked. -/
theorem Inserts.skipped_iff {k : Kind} (h : Inserts s.registry t k name) :
    (su.transform t k position s).2 = .skipped ("'" ++ name ++ "' was never fetched") ↔
      s.registry.isBlocked name = true := by
  have hinsert : t.kind?.any Kind.isOptionalInsert = true := by simp [h.kind, h.optional]
  have hmissed : missedInsert? s.registry t = t.referencedNames.find? s.registry.isBlocked :=
    if_pos hinsert
  constructor
  · intro hskipped
    have htransformed := transformed su t k position s
    generalize su.transform t k position s = result at hskipped htransformed
    obtain ⟨out, outcome⟩ := result
    dsimp only at hskipped
    subst hskipped
    generalize hreason : "'" ++ name ++ "' was never fetched" = reason at htransformed
    cases htransformed with
    | @missed other hother =>
      rw [hmissed] at hother
      have hblocked := List.find?_some hother
      exact h.only other (List.mem_of_find?_eq_some hother) hblocked ▸ hblocked
    | pointless _ hrecipe => exact absurd hreason.symm (ne_missed_of_recipe hrecipe)
  · intro hblocked
    have hsome : (t.referencedNames.find? s.registry.isBlocked).isSome = true :=
      List.find?_isSome.mpr ⟨name, h.refers, hblocked⟩
    obtain ⟨other, hother⟩ := Option.isSome_iff_exists.mp hsome
    obtain rfl := h.only other (List.mem_of_find?_eq_some hother) (List.find?_some hother)
    unfold transform
    rw [hmissed, hother]

omit [TimeScale T] [Spelled T] in
theorem resolve_blocked_iff {r : Registry} {step : String} :
    resolve r step position name = .error (.blocked step position name) ↔
      r.isBlocked name = true ∧ r.resolve? name = none := by
  unfold resolve
  cases r.resolve? name with
  | some p => simp
  | none =>
    dsimp only
    split_ifs with h <;> simp [h]

omit [TimeScale T] [Spelled T] in
/-- A failure for a blocked name is that of the name's own reading. -/
theorem resolve_blocked {r : Registry} {step step' other : String} {p : Nat}
    (h : resolve r step position other = .error (.blocked step' p name)) : other = name := by
  unfold resolve at h
  split at h
  · exact absurd h nofun
  · split_ifs at h
    · exact (Failure.blocked.inj (Except.error.inj h)).2.2
    · exact absurd h nofun

theorem mapM_error_of_only {A B : Type} {f : A → Except Failure B} {as : List A} {a : A}
    {e : Failure} (hmem : a ∈ as) (ha : f a = .error e)
    (honly : ∀ other ∈ as, other ≠ a → ∃ b, f other = .ok b) : as.mapM f = .error e := by
  induction as with
  | nil => exact absurd hmem List.not_mem_nil
  | cons other as ih =>
    rw [List.mapM_cons]
    by_cases heq : other = a
    · rw [heq, ha]
      rfl
    · obtain ⟨b, hb⟩ := honly other List.mem_cons_self heq
      have hrest := (List.mem_cons.mp hmem).resolve_left (Ne.symm heq)
      rw [hb, ih hrest fun next hnext => honly next (List.mem_cons_of_mem other hnext)]
      rfl

omit [TimeScale T] [Spelled T] in
/-- Only what may be left out is laid over something. -/
theorem attachmentOf_required {r : Registry} {files : Files} {k : Kind} (hkind : t.kind? = some k)
    (hrequired : k.isOptionalInsert = false) : attachmentOf r files position t = .ok none := by
  unfold attachmentOf
  cases hop : t.op with
  | overlayVideo p =>
    rw [Task.kind?, hop] at hkind
    obtain rfl := Option.some.inj hkind
    exact absurd hrequired (by decide)
  | addImageOverlay p =>
    rw [Task.kind?, hop] at hkind
    obtain rfl := Option.some.inj hkind
    exact absurd hrequired (by decide)
  | _ => rfl

/-- A transformation that has to be done fails for a blocked name that it reads if and only if the
name stands for nothing. -/
theorem Consumes.failed_iff {k : Kind} (h : Consumes s.registry t k name) :
    (su.transform t k position s).2 = .failed (.blocked t.op.typeName position name) ↔
      s.registry.isBlocked name = true ∧ s.registry.resolve? name = none := by
  have hmissed : missedInsert? s.registry t = none := if_neg (by simp [h.kind, h.required])
  have hinputs : inputsOf s.registry s.files position t =
      t.inputs.mapM (resolve s.registry t.op.typeName position) :=
    if_neg (by simpa using List.ne_nil_of_mem h.reads)
  constructor
  · intro hfailed
    have htransformed := transformed su t k position s
    generalize su.transform t k position s = result at hfailed htransformed
    obtain ⟨out, outcome⟩ := result
    dsimp only at hfailed
    subst hfailed
    cases htransformed with
    | lacking _ hlacks =>
      rw [hinputs, attachmentOf_required h.kind h.required] at hlacks
      obtain ⟨other, -, hother⟩ := exists_of_mapM_error (hlacks.resolve_right nofun)
      obtain rfl := resolve_blocked hother
      exact resolve_blocked_iff.mp hother
  · intro hblocked
    have hname : resolve s.registry t.op.typeName position name =
        .error (.blocked t.op.typeName position name) := resolve_blocked_iff.mpr hblocked
    have hfails : t.inputs.mapM (resolve s.registry t.op.typeName position) =
        .error (.blocked t.op.typeName position name) := by
      refine mapM_error_of_only h.reads hname fun other hother hne => ?_
      obtain ⟨p, hp⟩ := Option.isSome_iff_exists.mp (h.only other hother hne)
      exact ⟨p, by rw [resolve, hp]⟩
    unfold transform
    rw [hmissed]
    dsimp only [RunState.note]
    rw [hinputs, hfails]

/-- An insert is passed over for a name where a transformation that has to be done fails for it,
unless the name is blocked and stands for something. -/
theorem readers_agree_iff {t u : Task T} {k l : Kind} (ht : Inserts s.registry t k name)
    (hu : Consumes s.registry u l name) :
    ((su.transform t k position s).2 = .skipped ("'" ++ name ++ "' was never fetched") ↔
        (su.transform u l position s).2 = .failed (.blocked u.op.typeName position name)) ↔
      ¬ s.registry.AtOdds name := by
  rw [ht.skipped_iff, hu.failed_iff, Registry.AtOdds]
  cases s.registry.resolve? name <;> simp

omit [TimeScale T] [Spelled T] in
theorem finish_agrees (output : Path) (answer : Except Failure Unit) (s : RunState T) :
    s.registry.Agrees (finish output answer s).state.registry := by
  cases answer <;> exact ⟨rfl, rfl⟩

omit [TimeScale T] [Spelled T] in
theorem persist_agrees (output : Path) (s : RunState T) :
    s.registry.Agrees (persist output s).1.registry := by
  unfold persist
  split <;> exact ⟨rfl, rfl⟩

end Setup

/-! ## Runs -/

namespace Bench
variable {T : Type} [TimeScale T] [Spelled T] {b : Bench T} {ts : Plan T} {n i j : Nat}
  {name : String}

/-- The run with the first `n` tasks run. -/
def upTo (b : Bench T) (ts : Plan T) (n : Nat) : RunState T × Except Failure Unit :=
  b.setup.upTo ts b.source b.scratch b.files n

/-- The task behind the first `n` is run, in this state. -/
def Reaches (b : Bench T) (ts : Plan T) (n : Nat) (t : Task T) (s : RunState T) : Prop :=
  ts[n]? = some t ∧ b.upTo ts n = (s, .ok ())

/-- The task behind the first `n` is run and counts as a step, and the name is its own. -/
def Gives (b : Bench T) (ts : Plan T) (n : Nat) (name : String) : Prop :=
  ∃ t s, b.Reaches ts n t s ∧ t.output = some name ∧ s.steps < (b.upTo ts (n + 1)).1.steps

/-- The task behind the first `n` is run, a fetch that finds nothing for its name. -/
def Misses (b : Bench T) (ts : Plan T) (n : Nat) (name : String) : Prop :=
  ∃ t s, b.Reaches ts n t s ∧ b.setup.Misses t s name

theorem upTo_succ_of_reaches {t : Task T} {s : RunState T} (h : b.Reaches ts n t s) :
    b.upTo ts (n + 1) = b.setup.runTask ts.length (n + 1) t s :=
  Setup.upTo_succ_of_ok h.1 h.2

theorem upTo_succ_of_not_reaches (h : ∀ t s, ¬ b.Reaches ts n t s) :
    b.upTo ts (n + 1) = b.upTo ts n := by
  cases ht : ts[n]? with
  | none =>
    have hn : ts.length ≤ n := List.getElem?_eq_none_iff.mp ht
    unfold upTo
    rw [Setup.upTo_of_length_le hn, Setup.upTo_of_length_le (Nat.le_succ_of_le hn)]
  | some t =>
    cases hs : b.upTo ts n with
    | mk s answer =>
      cases answer with
      | ok _ => exact absurd ⟨ht, hs⟩ (h t s)
      | error e => exact Setup.upTo_error hs (Nat.le_succ n)

/-- What one task more does to the names. -/
theorem names_succ (b : Bench T) (ts : Plan T) (n : Nat) :
    (∀ name, ((b.upTo ts (n + 1)).1.registry.resolve? name).isSome = true ↔
      ((b.upTo ts n).1.registry.resolve? name).isSome = true ∨ b.Gives ts n name) ∧
    (∀ name, (b.upTo ts (n + 1)).1.registry.isBlocked name = true ↔
      b.Misses ts n name ∨
        (b.upTo ts n).1.registry.isBlocked name = true ∧ ¬ b.Gives ts n name) ∧
    ∀ name, b.Misses ts n name → ¬ b.Gives ts n name := by
  by_cases hreaches : ∃ t s, b.Reaches ts n t s
  · obtain ⟨t, s, hreaches⟩ := hreaches
    have hunique : ∀ u r, b.Reaches ts n u r ↔ u = t ∧ r = s := by
      refine fun u r => ⟨fun h => ?_, ?_⟩
      · exact ⟨Option.some.inj (h.1.symm.trans hreaches.1),
          congrArg Prod.fst (h.2.symm.trans hreaches.2)⟩
      · rintro ⟨rfl, rfl⟩
        exact hreaches
    have hreflects := (Setup.reflects_upTo b.setup ts b.source b.scratch b.files n).1
    have hnow : b.upTo ts n = (s, .ok ()) := hreaches.2
    have hstate : (b.setup.upTo ts b.source b.scratch b.files n).1 = s := congrArg Prod.fst hnow
    rw [hstate] at hreflects
    have hgives : ∀ name, b.Gives ts n name ↔
        t.output = some name ∧ s.steps < (b.upTo ts (n + 1)).1.steps := by
      simp [Gives, hunique]
    have hmisses : ∀ name, b.Misses ts n name ↔ b.setup.Misses t s name := by
      simp [Misses, hunique]
    obtain ⟨hresolved, hblocked, hexclusive⟩ :=
      Setup.names_runTask b.setup hreflects ts.length (n + 1) t
    rw [← upTo_succ_of_reaches hreaches] at hresolved hblocked hexclusive
    simp only [hgives, hmisses, hnow]
    exact ⟨hresolved, hblocked, fun name hmiss hgive => hexclusive name hmiss hgive.2⟩
  · rw [not_exists] at hreaches
    have hnone : ∀ t s, ¬ b.Reaches ts n t s := fun t => not_exists.mp (hreaches t)
    simp [upTo_succ_of_not_reaches hnone, Gives, Misses, hnone]

/-- Of what comes last, one more may be it. -/
theorem exists_lt_succ_last {M G : Nat → Prop} {n : Nat} :
    (∃ i < n + 1, M i ∧ ∀ j < n + 1, i < j → ¬ G j) ↔
      M n ∨ (∃ i < n, M i ∧ ∀ j < n, i < j → ¬ G j) ∧ ¬ G n := by
  constructor
  · rintro ⟨i, hi, hm, hg⟩
    obtain hi | rfl := Nat.lt_or_eq_of_le (Nat.le_of_lt_succ hi)
    · exact Or.inr ⟨⟨i, hi, hm, fun j hj => hg j (Nat.lt_succ_of_lt hj)⟩,
        hg n (Nat.lt_succ_self n) hi⟩
    · exact Or.inl hm
  · rintro (hm | ⟨⟨i, hi, hm, hg⟩, hn⟩)
    · exact ⟨n, Nat.lt_succ_self n, hm, fun j hj hlt =>
        absurd hlt (Nat.not_lt.mpr (Nat.le_of_lt_succ hj))⟩
    · refine ⟨i, Nat.lt_succ_of_lt hi, hm, fun j hj hlt => ?_⟩
      obtain hj | rfl := Nat.lt_or_eq_of_le (Nat.le_of_lt_succ hj)
      · exact hg j hj hlt
      · exact hn

/-- Behind the first `n` tasks, a name stands for something if it is that of the source or was
given, and it is blocked if it was missed and not given after. -/
theorem names_upTo (b : Bench T) (ts : Plan T) (n : Nat) :
    (∀ name, ((b.upTo ts n).1.registry.resolve? name).isSome = true ↔
      name = sourceName ∨ ∃ i < n, b.Gives ts i name) ∧
    ∀ name, (b.upTo ts n).1.registry.isBlocked name = true ↔
      ∃ i < n, b.Misses ts i name ∧ ∀ j < n, i < j → ¬ b.Gives ts j name := by
  induction n with
  | zero =>
    constructor
    · intro name
      have hstart := (Registry.Lists.initial b.source (ts.filterMap Task.output)).resolved name
      refine hstart.trans (or_congr_right ?_)
      simp
    · intro name
      simp [upTo, Setup.upTo_zero, RunState.note, RunState.start, Registry.start,
        Registry.isBlocked]
  | succ n ih =>
    obtain ⟨hresolved, hblocked, -⟩ := b.names_succ ts n
    constructor
    · intro name
      rw [hresolved, ih.1, Nat.exists_lt_succ_right, or_assoc]
    · intro name
      rw [hblocked, ih.2, exists_lt_succ_last]

/-- Behind the first `n` tasks, a name is blocked and stands for something if and only if a fetch
has missed it that came after it was given, and it was not given again. -/
theorem atOdds_upTo (b : Bench T) (ts : Plan T) (n : Nat) (name : String) :
    (b.upTo ts n).1.registry.AtOdds name ↔ ∃ i < n, b.Misses ts i name ∧
      (name = sourceName ∨ ∃ j < i, b.Gives ts j name) ∧
        ∀ j < n, i < j → ¬ b.Gives ts j name := by
  obtain ⟨hresolved, hblocked⟩ := b.names_upTo ts n
  unfold Registry.AtOdds
  rw [hresolved, hblocked]
  constructor
  · rintro ⟨⟨i, hi, hmiss, hlast⟩, hgiven⟩
    refine ⟨i, hi, hmiss, hgiven.imp_right ?_, hlast⟩
    rintro ⟨j, hj, hgive⟩
    obtain hlt | rfl | hgt := Nat.lt_trichotomy j i
    · exact ⟨j, hlt, hgive⟩
    · exact absurd hgive ((b.names_succ ts j).2.2 name hmiss)
    · exact absurd hgive (hlast j hj hgt)
  · rintro ⟨i, hi, hmiss, hgiven, hlast⟩
    refine ⟨⟨i, hi, hmiss, hlast⟩, hgiven.imp_right ?_⟩
    rintro ⟨j, hj, hgive⟩
    exact ⟨j, Nat.lt_trans hj hi, hgive⟩

/-- What is done behind the last task has nothing to do with names. -/
theorem agrees_run (hsource : b.files.isFile b.source = true) (output : Path) :
    (b.upTo ts ts.length).1.registry.Agrees (b.run ts output).state.registry := by
  unfold upTo run
  rw [Setup.run_eq hsource]
  split
  · rename_i s e hs
    rw [hs]
    exact Setup.finish_agrees output _ s
  · rename_i s hs
    rw [hs]
    exact (Setup.persist_agrees output s).trans (Setup.finish_agrees output _ _)

/-- A name is blocked and stands for something behind a part of a run if and only if a fetch has
missed it after it was given, and it was not given again. It is there and nowhere else that an
insert is passed over for a name which a transformation that has to be done can read. None of this
happens in a run where no fetch misses a name that is given. -/
theorem missed_after_given (b : Bench T) (ts : Plan T) :
    (∀ n name, (b.upTo ts n).1.registry.AtOdds name ↔ ∃ i < n, b.Misses ts i name ∧
      (name = sourceName ∨ ∃ j < i, b.Gives ts j name) ∧
        ∀ j < n, i < j → ¬ b.Gives ts j name) ∧
    (∀ n name (t u : Task T) k l position,
      Setup.Inserts (b.upTo ts n).1.registry t k name →
      Setup.Consumes (b.upTo ts n).1.registry u l name →
      (((b.setup.transform t k position (b.upTo ts n).1).2 =
            .skipped ("'" ++ name ++ "' was never fetched") ↔
          (b.setup.transform u l position (b.upTo ts n).1).2 =
            .failed (.blocked u.op.typeName position name)) ↔
        ¬ (b.upTo ts n).1.registry.AtOdds name)) ∧
    ((∀ n name, ¬ (b.upTo ts n).1.registry.AtOdds name) ↔
      ∀ i name, b.Misses ts i name → name ≠ sourceName ∧ ∀ j < i, ¬ b.Gives ts j name) ∧
    (b.files.isFile b.source = true → ∀ output name,
      (b.run ts output).state.registry.AtOdds name ↔
        (b.upTo ts ts.length).1.registry.AtOdds name) := by
  refine ⟨b.atOdds_upTo ts, fun n name t u k l position => Setup.readers_agree_iff, ⟨?_, ?_⟩,
    fun hsource output name => (agrees_run hsource output).atOdds_iff name⟩
  · intro hnever i name hmiss
    have hnext := hnever (i + 1) name
    rw [b.atOdds_upTo] at hnext
    have hlast : ∀ j < i + 1, i < j → ¬ b.Gives ts j name := fun j hj hlt =>
      absurd hlt (Nat.not_lt.mpr (Nat.le_of_lt_succ hj))
    constructor
    · intro hname
      exact hnext ⟨i, Nat.lt_succ_self i, hmiss, Or.inl hname, hlast⟩
    · intro j hj hgive
      exact hnext ⟨i, Nat.lt_succ_self i, hmiss, Or.inr ⟨j, hj, hgive⟩, hlast⟩
  · intro hmissed n name hodds
    obtain ⟨i, -, hmiss, hgiven, -⟩ := (b.atOdds_upTo ts n name).mp hodds
    obtain ⟨hname, hbefore⟩ := hmissed i name hmiss
    exact hgiven.elim hname fun ⟨j, hj, hgive⟩ => hbefore j hj hgive

/-- A clip that is found and then missed under the same name, something that it is laid over, and
something that it is read for. -/
def rivalPlan : Plan Float :=
  [⟨.fetchVideo ⟨"sea", [], 10, ""⟩, some "b", []⟩,
    ⟨.fetchVideo ⟨"desert", [], 10, ""⟩, some "b", []⟩,
    ⟨.overlayVideo ⟨1, some 5, "b"⟩, none, []⟩,
    ⟨.resize ⟨640, none⟩, none, ["b"]⟩]

def rivalBench : Bench Float := ⟨patchySetup, ⟨"/in.mp4"⟩, deskScratch, desk⟩

/-- The overlay is passed over for a clip that is said never to have been fetched, and the clip is
then resized. -/
theorem rivalPlan_at_odds :
    (rivalBench.upTo rivalPlan 2).1.registry.AtOdds "b" ∧
      ((rivalBench.run rivalPlan ⟨"/out/final.mp4"⟩).answer.toOption.map fun report =>
          (report.steps, report.skipped.map fun skip => (skip.position, skip.reason))) =
        some (2, [(2, "no content found, 'b' is blocked"), (3, "'b' was never fetched")]) :=
  ⟨⟨by decide +kernel, by decide +kernel⟩, by decide +kernel⟩

/-- The second fetch is what the overlay and the resize do not agree about. Behind the first they
do. -/
theorem missed_after_given_rivalPlan :
    (∃ i < 2, rivalBench.Misses rivalPlan i "b" ∧ ∃ j < i, rivalBench.Gives rivalPlan j "b") ∧
      ¬ (rivalBench.upTo rivalPlan 1).1.registry.AtOdds "b" ∧
      (∃ t u k l, Setup.Inserts (rivalBench.upTo rivalPlan 2).1.registry t k "b" ∧
        Setup.Consumes (rivalBench.upTo rivalPlan 2).1.registry u l "b" ∧
        ¬ ((patchySetup.transform t k 3 (rivalBench.upTo rivalPlan 2).1).2 =
              .skipped ("'" ++ "b" ++ "' was never fetched") ↔
            (patchySetup.transform u l 3 (rivalBench.upTo rivalPlan 2).1).2 =
              .failed (.blocked u.op.typeName 3 "b"))) ∧
      desk.isFile ⟨"/in.mp4"⟩ = true ∧
        (rivalBench.run rivalPlan ⟨"/out/final.mp4"⟩).state.registry.AtOdds "b" := by
  obtain ⟨hwhere, hreaders, -, hlast⟩ := missed_after_given rivalBench rivalPlan
  have hodds : (rivalBench.upTo rivalPlan 2).1.registry.AtOdds "b" :=
    ⟨by decide +kernel, by decide +kernel⟩
  have hend : (rivalBench.upTo rivalPlan 4).1.registry.AtOdds "b" :=
    ⟨by decide +kernel, by decide +kernel⟩
  have hinsert : Setup.Inserts (rivalBench.upTo rivalPlan 2).1.registry
      (⟨.overlayVideo ⟨1, some 5, "b"⟩, none, []⟩ : Task Float) .overlayVideo "b" :=
    ⟨rfl, rfl, by decide, fun other hother _ => List.mem_singleton.mp hother⟩
  have hconsumer : Setup.Consumes (rivalBench.upTo rivalPlan 2).1.registry
      (⟨.resize ⟨640, none⟩, none, ["b"]⟩ : Task Float) .resize "b" :=
    ⟨rfl, rfl, by decide, fun other hother hne => absurd (List.mem_singleton.mp hother) hne⟩
  obtain ⟨i, hi, hmiss, hgiven, -⟩ := (hwhere 2 "b").mp hodds
  refine ⟨⟨i, hi, hmiss, hgiven.resolve_left (by decide)⟩, ?_,
    ⟨_, _, _, _, hinsert, hconsumer, ?_⟩, by decide +kernel, ?_⟩
  · rintro ⟨hblocked, -⟩
    exact absurd hblocked (by decide +kernel)
  · intro hagree
    exact (hreaders 2 "b" _ _ _ _ 3 hinsert hconsumer).mp hagree hodds
  · exact (hlast (by decide +kernel) ⟨"/out/final.mp4"⟩ "b").mpr hend

end Bench

end Montage
