import Montage.Proofs.Run.Order
import Montage.Proofs.Run.Resolution

/-!
# How far a run has come

A run is followed through its plan: it has run the first tasks, or one of them has failed and ended
it. What a run does at a task can be read off its trace, since every event of a task bears its
position, and what a task fails with is what the whole run fails with.
-/

namespace Montage

/-- The position of the task that an event belongs to. -/
def Event.position? {T : Type} : Event T → Option Nat
  | unknown s => some s.position
  | started position _ _ => some position
  | wrote position _ => some position
  | invoked position _ _ => some position
  | completed position _ _ => some position
  | skipped s => some s.position
  | _ => none

namespace Setup
variable {T : Type} {s : RunState T}

/-- Events of the task at a position, and such as belong to no task. -/
def Within (position : Nat) (events : List (Event T)) : Prop :=
  ∀ e ∈ events, ∀ p ∈ e.position?, p = position

/-! ## What a task adds to the trace -/

/-- Between two states of a run, the task at a position has added its events to the trace. -/
def Adds (position : Nat) (s out : RunState T) : Prop :=
  ∃ events, out.trace = s.trace ++ events ∧ Within position events

namespace Adds
variable {position : Nat} {s s' s'' : RunState T}

theorem of_eq (h : s'.trace = s.trace) : Adds position s s' :=
  ⟨[], by rw [h, List.append_nil], List.forall_mem_nil _⟩

theorem trans (h : Adds position s s') (h' : Adds position s' s'') : Adds position s s'' := by
  obtain ⟨events, htrace, hevents⟩ := h
  obtain ⟨more, htrace', hmore⟩ := h'
  exact ⟨events ++ more, by rw [htrace', htrace, List.append_assoc],
    List.forall_mem_append.mpr ⟨hevents, hmore⟩⟩

theorem note {events : List (Event T)} (h : Within position events) :
    Adds position s (s.note events) := ⟨events, rfl, h⟩

end Adds

theorem within_singleton {position : Nat} {e : Event T} (h : e.position? = some position) :
    Within position [e] :=
  List.forall_mem_singleton.mpr fun _ hp => Option.some.inj (hp.symm.trans h)

theorem within_map {A : Type} {f : A → Event T} (hf : ∀ a, (f a).position? = none)
    (position : Nat) (as : List A) : Within position (as.map f) := by
  intro e he p hp
  obtain ⟨a, -, rfl⟩ := List.mem_map.mp he
  rw [hf a] at hp
  exact absurd hp nofun

/-- A fetch leaves the traces of its requests alone. -/
theorem trace_fetch (su : Setup T) (t : Task T) (s : RunState T) :
    ∃ events, (su.fetch t s).1.trace = s.trace ++ events ∧ ∀ e ∈ events, e.position? = none := by
  have hevents (search : Search T) : ∀ e ∈ search.requests.map Event.asked ++
      search.log.map (Event.reported (T := T)), e.position? = none :=
    List.forall_mem_append.mpr
      ⟨List.forall_mem_map.mpr fun _ _ => rfl, List.forall_mem_map.mpr fun _ _ => rfl⟩
  have h := sought su t s
  generalize su.fetch t s = result at h ⊢
  obtain ⟨out, outcome⟩ := result
  cases h with
  | aside _ => exact ⟨[], (List.append_nil _).symm, List.forall_mem_nil _⟩
  | missed _ _ => exact ⟨_, rfl, hevents _⟩
  | found _ _ _ => exact ⟨_, rfl, hevents _⟩

theorem adds_fetch (su : Setup T) (t : Task T) (position : Nat) (s : RunState T) :
    Adds position s (su.fetch t s).1 := by
  obtain ⟨events, htrace, hevents⟩ := trace_fetch su t s
  exact ⟨events, htrace, fun e he p hp => absurd ((hevents e he).symm.trans hp) nofun⟩

theorem adds_of_writeSidecar {position : Nat} {sidecar? : Option Sidecar} {ready : RunState T}
    (h : writeSidecar position sidecar? s = (ready, .ok ())) : Adds position s ready := by
  obtain ⟨-, rfl⟩ | ⟨sidecar, files, -, -, rfl⟩ := writeSidecar_ok h
  · exact .of_eq rfl
  · exact ⟨_, rfl, within_singleton rfl⟩

theorem adds_invoke (su : Setup T) (position : Nat) (i : Invocation) (s : RunState T) :
    Adds position s (su.invoke position i s).1 := by
  refine ⟨_, rfl, List.forall_mem_cons.mpr ⟨?_, within_map (fun _ => rfl) position _⟩⟩
  rintro p ⟨⟩
  rfl

variable [TimeScale T] [Spelled T]

theorem adds_transform (su : Setup T) (t : Task T) (k : Kind) (position : Nat) (s : RunState T) :
    Adds position s (su.transform t k position s).1 := by
  have hmissing : Adds position s (s.note ((missingClips s.files t).map Event.missingClip)) :=
    .note (within_map (fun _ => rfl) position _)
  have hprepared (step : StepFiles) : Adds position s (prepared t step s) := hmissing
  have h := transformed su t k position s
  generalize su.transform t k position s = result at h ⊢
  obtain ⟨out, outcome⟩ := result
  cases h with
  | missed _ => exact .of_eq rfl
  | lacking _ _ => exact hmissing
  | pointless _ _ => exact hprepared _
  | refused _ _ => exact hprepared _
  | @unwritten step _ _ _ _ _ _ => exact hprepared step
  | failed _ _ hready _ =>
    exact ((hprepared _).trans (adds_of_writeSidecar hready)).trans (adds_invoke su position _ _)
  | done _ _ hready _ =>
    exact ((hprepared _).trans (adds_of_writeSidecar hready)).trans (adds_invoke su position _ _)

theorem adds_runTask (su : Setup T) (total position : Nat) (t : Task T) (s : RunState T) :
    Adds position s (su.runTask total position t s).1 := by
  cases hkind : t.kind? with
  | none =>
    unfold runTask
    rw [hkind]
    exact ⟨_, rfl, within_singleton rfl⟩
  | some k =>
    have hact : Adds position s (su.act t k position (s.note [.started position total t])).1 := by
      have hstarted : Adds position s (s.note [.started position total t]) :=
        .note (within_singleton rfl)
      refine hstarted.trans ?_
      unfold act
      split_ifs
      · exact adds_fetch su t position _
      · exact adds_transform su t k position _
    rw [runTask_of_kind su hkind]
    split
    · rename_i out hout
      rw [hout] at hact
      exact hact.trans ⟨_, rfl, within_singleton rfl⟩
    · rename_i out reason hout
      rw [hout] at hact
      exact hact.trans ⟨_, rfl, within_singleton rfl⟩
    · rename_i out e hout
      rw [hout] at hact
      exact hact

/-- The events of a task. -/
def eventsOf (su : Setup T) (total position : Nat) (t : Task T) (s : RunState T) :
    List (Event T) :=
  (su.runTask total position t s).1.trace.drop s.trace.length

theorem trace_runTask (su : Setup T) (total position : Nat) (t : Task T) (s : RunState T) :
    (su.runTask total position t s).1.trace = s.trace ++ su.eventsOf total position t s ∧
      Within position (su.eventsOf total position t s) := by
  obtain ⟨events, htrace, hevents⟩ := adds_runTask su total position t s
  unfold eventsOf
  rw [htrace, List.drop_left]
  exact ⟨rfl, hevents⟩

/-! ## The first tasks of a plan -/

/-- The run with the first `n` tasks of the plan run, unless one of them has ended it. -/
def upTo (su : Setup T) (ts : Plan T) (source : Path) (scratch : Scratch) (files : Files)
    (n : Nat) : RunState T × Except Failure Unit :=
  su.runFrom ts.length 1 (ts.take n)
    ((RunState.start source ts scratch files).note [.began ts.length source su.tool.name])

/-- What those tasks have made. -/
def madeUpTo (su : Setup T) (ts : Plan T) (source : Path) (scratch : Scratch) (files : Files)
    (n : Nat) : List (Made T) :=
  su.madeFrom ts.length 1 (ts.take n)
    ((RunState.start source ts scratch files).note [.began ts.length source su.tool.name])

theorem runFrom_append (su : Setup T) (total position : Nat) (front behind : Plan T)
    (s : RunState T) :
    su.runFrom total position (front ++ behind) s =
      match su.runFrom total position front s with
      | (s, .error e) => (s, .error e)
      | (s, .ok ()) => su.runFrom total (position + front.length) behind s := by
  induction front generalizing position s with
  | nil => rfl
  | cons t front ih =>
    rw [List.cons_append, runFrom, runFrom]
    split
    · rfl
    · rw [ih, List.length_cons, Nat.add_right_comm, Nat.add_assoc]

section
variable {su : Setup T} {ts : Plan T} {source : Path} {scratch : Scratch} {files : Files}
  {n m : Nat} {t : Task T} {s : RunState T} {e : Failure}

theorem upTo_zero : su.upTo ts source scratch files 0 =
    ((RunState.start source ts scratch files).note [.began ts.length source su.tool.name],
      .ok ()) := rfl

/-- One task more. -/
theorem upTo_succ (ht : ts[n]? = some t) :
    su.upTo ts source scratch files (n + 1) = match su.upTo ts source scratch files n with
      | (s, .error e) => (s, .error e)
      | (s, .ok ()) => su.runTask ts.length (n + 1) t s := by
  have hn : n < ts.length := (List.getElem?_eq_some_iff.mp ht).choose
  have hlength : (ts.take n).length = n := List.length_take_of_le (Nat.le_of_lt hn)
  unfold upTo
  rw [List.take_add_one, ht, Option.toList_some, runFrom_append, hlength, Nat.add_comm 1 n]
  split
  · rfl
  · unfold runFrom
    split
    · rename_i hrun
      exact hrun.symm
    · rename_i hrun
      exact hrun.symm

theorem upTo_succ_of_ok (ht : ts[n]? = some t)
    (hs : su.upTo ts source scratch files n = (s, .ok ())) :
    su.upTo ts source scratch files (n + 1) = su.runTask ts.length (n + 1) t s := by
  rw [upTo_succ ht, hs]

/-- What holds at the start and is kept by each task holds as long as no task fails. -/
theorem upTo_induction {P : Nat → RunState T → Prop}
    (hstart : P 0 ((RunState.start source ts scratch files).note
      [.began ts.length source su.tool.name]))
    (hstep : ∀ n t s out, ts[n]? = some t → su.upTo ts source scratch files n = (s, .ok ()) →
      P n s → su.runTask ts.length (n + 1) t s = (out, .ok ()) → P (n + 1) out)
    (hn : n ≤ ts.length) (hs : su.upTo ts source scratch files n = (s, .ok ())) : P n s := by
  induction n generalizing s with
  | zero =>
    rw [upTo_zero] at hs
    rw [← (Prod.mk.inj hs).1]
    exact hstart
  | succ n ih =>
    have ht : ts[n]? = some ts[n] := List.getElem?_eq_getElem hn
    rw [upTo_succ ht] at hs
    split at hs
    · exact absurd (congrArg Prod.snd hs) nofun
    · rename_i s' hs'
      exact hstep n _ s' s ht hs' (ih (Nat.le_of_succ_le hn) hs') hs

theorem upTo_of_length_le (hn : ts.length ≤ n) : su.upTo ts source scratch files n =
    su.upTo ts source scratch files ts.length := by
  unfold upTo
  rw [List.take_of_length_le hn, List.take_length]

/-- A failure ends the run. -/
theorem upTo_error (hs : su.upTo ts source scratch files n = (s, .error e)) (hm : n ≤ m) :
    su.upTo ts source scratch files m = (s, .error e) := by
  obtain ⟨d, rfl⟩ := Nat.exists_eq_add_of_le hm
  unfold upTo at hs ⊢
  rw [List.take_add, runFrom_append, hs]

/-- The registry says what the tasks that are completed so far have made, and each of them is one
of the first. -/
theorem reflects_upTo (su : Setup T) (ts : Plan T) (source : Path) (scratch : Scratch)
    (files : Files) (n : Nat) :
    Reflects source (su.madeUpTo ts source scratch files n)
        (su.upTo ts source scratch files n).1.registry ∧
      ∀ m ∈ su.madeUpTo ts source scratch files n, m.position ≤ n ∧ m.task ∈ ts.take n := by
  have hbefore : ∀ m ∈ ([] : List (Made T)), m.position < 1 := List.forall_mem_nil _
  obtain ⟨events, -, -, hreflects, hordered⟩ := ordered_runFrom su
    (s := (RunState.start source ts scratch files).note [.began ts.length source su.tool.name])
    (.initial source (ts.filterMap Task.output)) hbefore ts.length (ts.take n)
  refine ⟨hreflects, fun m hm => ?_⟩
  obtain ⟨hfirst, htask, -⟩ := hordered.artifacts m hm
  obtain ⟨hlt, heq⟩ := List.getElem?_eq_some_iff.mp htask
  have hlength := List.length_take_le n ts
  exact ⟨by omega, heq ▸ List.getElem_mem hlt⟩

/-- A call of a task reads what the task has to read once the tasks before it are completed. -/
theorem reads_of_mem_eventsOf {i : Invocation} {fs : Files} {position : Nat}
    (hs : su.upTo ts source scratch files n = (s, .ok ()))
    (hcall : .invoked position i fs ∈ su.eventsOf ts.length (n + 1) t s) :
    t.isFetch = false ∧ t.Reads source (su.madeUpTo ts source scratch files n) i := by
  obtain ⟨hreflects, hmade⟩ := reflects_upTo su ts source scratch files n
  rw [hs] at hreflects
  have hbefore : ∀ m ∈ su.madeUpTo ts source scratch files n, m.position < n + 1 :=
    fun m hm => Nat.lt_succ_of_le (hmade m hm).1
  obtain ⟨events, htrace, -, -, hordered⟩ := ordered_runTask su hreflects hbefore ts.length t
  have hevents : su.eventsOf ts.length (n + 1) t s = events := by
    unfold eventsOf
    rw [htrace, List.drop_left]
  rw [hevents] at hcall
  have hmem : (position, i) ∈ events.filterMap Event.call? :=
    List.mem_filterMap.mpr ⟨_, hcall, rfl⟩
  obtain ⟨u, k, hle, hu, hkind, hfetch, hreads⟩ := hordered.calls _ hmem
  obtain rfl : position = n + 1 := Ordered.eq_first_of_getElem? hle hu
  obtain rfl : t = u := by simpa using hu
  have hkeep : (su.madeUpTo ts source scratch files n).filter
      (fun m => m.position < n + 1) = su.madeUpTo ts source scratch files n :=
    List.filter_eq_self.mpr fun m hm => by simpa using hbefore m hm
  have hdrop : (su.madeBy ts.length (n + 1) t s).filter (fun m => m.position < n + 1) = [] :=
    List.filter_eq_nil_iff.mpr fun m hm => by simp [hordered.eq_of_mem_after hm]
  rw [List.filter_append, hkeep, hdrop, List.append_nil] at hreads
  exact ⟨by simpa [Task.isFetch, hkind] using hfetch, hreads⟩

/-! ## Whole runs -/

/-- An event of a task comes from that task, which the run has come to. -/
theorem mem_trace_upTo {event : Event T} {position : Nat} (hn : n ≤ ts.length)
    (hevent : event ∈ (su.upTo ts source scratch files n).1.trace)
    (hposition : event.position? = some position) :
    ∃ m t s, m < n ∧ position = m + 1 ∧ ts[m]? = some t ∧
      su.upTo ts source scratch files m = (s, .ok ()) ∧
      event ∈ su.eventsOf ts.length (m + 1) t s := by
  induction n with
  | zero =>
    obtain rfl := List.mem_singleton.mp hevent
    exact absurd hposition nofun
  | succ n ih =>
    have hbefore (h : event ∈ (su.upTo ts source scratch files n).1.trace) :
        ∃ m t s, m < n + 1 ∧ position = m + 1 ∧ ts[m]? = some t ∧
          su.upTo ts source scratch files m = (s, .ok ()) ∧
          event ∈ su.eventsOf ts.length (m + 1) t s := by
      obtain ⟨m, t, s, hm, hrest⟩ := ih (Nat.le_of_succ_le hn) h
      exact ⟨m, t, s, Nat.lt_succ_of_lt hm, hrest⟩
    have ht : ts[n]? = some ts[n] := List.getElem?_eq_getElem hn
    rw [upTo_succ ht] at hevent
    split at hevent
    · rename_i hs
      rw [hs] at hbefore
      exact hbefore hevent
    · rename_i s hs
      rw [hs] at hbefore
      obtain ⟨htrace, hwithin⟩ := trace_runTask su ts.length (n + 1) ts[n] s
      rw [htrace] at hevent
      rcases List.mem_append.mp hevent with hold | hnew
      · exact hbefore hold
      · exact ⟨n, ts[n], s, Nat.lt_succ_self n, hwithin event hnew position hposition, ht, hs,
          hnew⟩

omit [TimeScale T] [Spelled T] in
/-- The end of a run adds no event of a task. -/
theorem mem_trace_finish {event : Event T} {output : Path} {answer : Except Failure Unit}
    (hevent : event ∈ (finish output answer s).state.trace) :
    event ∈ s.trace ∨ event.position? = none := by
  have hlog : event ∈ s.trace ++ (s.registry.cleanup s.files).2.log.map Event.reported →
      event ∈ s.trace ∨ event.position? = none := by
    intro h
    rcases List.mem_append.mp h with hold | hreported
    · exact .inl hold
    · obtain ⟨line, -, rfl⟩ := List.mem_map.mp hreported
      exact .inr rfl
  cases answer with
  | error e =>
    rcases List.mem_append.mp hevent with hbefore | hlast
    · exact hlog hbefore
    · exact .inr (List.mem_singleton.mp hlast ▸ rfl)
  | ok _ =>
    rcases List.mem_append.mp hevent with hbefore | hlast
    · exact hlog hbefore
    · exact .inr (List.mem_singleton.mp hlast ▸ rfl)

/-- A run on a file runs all tasks and then copies the output, unless a task has failed. -/
theorem run_eq (hsource : files.isFile source = true) (output : Path) :
    su.run ts source output scratch files =
      match su.upTo ts source scratch files ts.length with
      | (s, .error e) => finish output (.error e) s
      | (s, .ok ()) => finish output (persist output s).2 (persist output s).1 := by
  have hall : su.upTo ts source scratch files ts.length = su.runFrom ts.length 1 ts
      ((RunState.start source ts scratch files).note [.began ts.length source su.tool.name]) := by
    unfold upTo
    rw [List.take_length]
  rw [hall]
  exact if_pos hsource

omit [TimeScale T] [Spelled T] in
theorem persist_frame (output : Path) (s : RunState T) :
    (persist output s).1.trace = s.trace ∧ (persist output s).1.skipped = s.skipped := by
  unfold persist
  split <;> exact ⟨rfl, rfl⟩

theorem mem_trace_run {event : Event T} {output : Path} {position : Nat}
    (hevent : event ∈ (su.run ts source output scratch files).state.trace)
    (hposition : event.position? = some position) :
    ∃ n t s, position = n + 1 ∧ ts[n]? = some t ∧
      su.upTo ts source scratch files n = (s, .ok ()) ∧
      event ∈ su.eventsOf ts.length (n + 1) t s := by
  have hall : event ∈ (su.upTo ts source scratch files ts.length).1.trace := by
    by_cases hsource : files.isFile source = true
    · rw [run_eq hsource] at hevent
      have hkeeps : event.position? ≠ none := by simp [hposition]
      split at hevent
      · rename_i s e hs
        rw [hs]
        exact (mem_trace_finish hevent).resolve_right hkeeps
      · rename_i s hs
        rw [hs]
        have hpersisted := (mem_trace_finish hevent).resolve_right hkeeps
        rwa [(persist_frame output s).1] at hpersisted
    · unfold run at hevent
      rw [if_neg hsource] at hevent
      exact absurd hevent List.not_mem_nil
  obtain ⟨n, t, s, -, hrest⟩ := mem_trace_upTo (Nat.le_refl _) hall hposition
  exact ⟨n, t, s, hrest⟩

/-- An event of a task comes from the state in which the run has come to the task. -/
theorem state_of_mem_trace {event : Event T} {output : Path} (ht : ts[n]? = some t)
    (hevent : event ∈ (su.run ts source output scratch files).state.trace)
    (hposition : event.position? = some (n + 1)) :
    ∃ s, su.upTo ts source scratch files n = (s, .ok ()) ∧
      event ∈ su.eventsOf ts.length (n + 1) t s := by
  obtain ⟨m, u, s, hm, hu, hs, hmem⟩ := mem_trace_run hevent hposition
  obtain rfl : n = m := Nat.succ.inj hm
  obtain rfl : t = u := Option.some.inj (ht.symm.trans hu)
  exact ⟨s, hs, hmem⟩

theorem isFile_of_mem_trace {event : Event T} {output : Path}
    (hevent : event ∈ (su.run ts source output scratch files).state.trace) :
    files.isFile source = true := by
  unfold run at hevent
  split_ifs at hevent with hsource
  · exact hsource
  · exact absurd hevent List.not_mem_nil

/-- What a task fails with is what the run fails with. -/
theorem run_of_upTo_error (hsource : files.isFile source = true) (output : Path)
    (hs : su.upTo ts source scratch files n = (s, .error e)) :
    (su.run ts source output scratch files).answer = .error e := by
  have hlast : su.upTo ts source scratch files ts.length = (s, .error e) := by
    rcases Nat.le_total n ts.length with hle | hle
    · exact upTo_error hs hle
    · rw [← upTo_of_length_le hle, hs]
  rw [run_eq hsource, hlast]
  rfl

/-- A run that succeeds has run all its tasks and copied its output. -/
theorem reached_of_run_ok {output : Path} {report : Report}
    (h : (su.run ts source output scratch files).answer = .ok report) :
    files.isFile source = true ∧
      su.runFrom ts.length 1 ts
          ((RunState.start source ts scratch files).note [.began ts.length source su.tool.name]) =
        (su.reached ts source scratch files, .ok ()) ∧
      ∃ out, Scratch.finalize (su.reached ts source scratch files).registry.current output
        (su.reached ts source scratch files).files = (.ok (), out) := by
  unfold run runOn at h
  unfold reached
  dsimp only at h
  split_ifs at h with hsource
  · refine ⟨hsource, ?_⟩
    generalize su.runFrom ts.length 1 ts ((RunState.start source ts scratch files).note
      [.began ts.length source su.tool.name]) = result at h ⊢
    obtain ⟨s, answer⟩ := result
    cases answer with
    | error e => exact absurd h nofun
    | ok u =>
      dsimp only [persist] at h ⊢
      cases hfinal : Scratch.finalize s.registry.current output s.files with
      | mk final out =>
        rw [hfinal] at h
        cases final with
        | error e => exact absurd h nofun
        | ok u => exact ⟨rfl, out, rfl⟩

/-- What a run reports that has run all its tasks and copied its output, and what it leaves. -/
theorem run_of_finalize {output : Path} (hsource : files.isFile source = true) {s : RunState T}
    (hrun : su.runFrom ts.length 1 ts
      ((RunState.start source ts scratch files).note [.began ts.length source su.tool.name]) =
        (s, .ok ()))
    {out : Files} (hfinal : Scratch.finalize s.registry.current output s.files = (.ok (), out)) :
    ∃ cleaned, (su.run ts source output scratch files).answer =
        .ok ⟨output, s.steps, s.registry.produced, s.skipped, cleaned⟩ ∧
      (su.run ts source output scratch files).state.files =
        (Registry.sweep out (s.registry.persist output).transients).files := by
  unfold run runOn
  dsimp only
  rw [if_pos hsource, hrun]
  dsimp only [persist]
  rw [hfinal]
  exact ⟨_, rfl, rfl⟩

/-- A run that fails for a task has not come to its output. -/
theorem reached_of_run_error {output : Path} {position : Nat}
    (h : (su.run ts source output scratch files).answer = .error e)
    (hposition : e.position? = some position) :
    files.isFile source = true ∧
      su.runFrom ts.length 1 ts
          ((RunState.start source ts scratch files).note [.began ts.length source su.tool.name]) =
        (su.reached ts source scratch files, .error e) := by
  unfold run runOn at h
  unfold reached
  dsimp only at h
  split_ifs at h with hsource
  · refine ⟨hsource, ?_⟩
    generalize su.runFrom ts.length 1 ts ((RunState.start source ts scratch files).note
      [.began ts.length source su.tool.name]) = result at h ⊢
    obtain ⟨s, answer⟩ := result
    cases answer with
    | error e' =>
      obtain rfl : e' = e := Except.error.inj h
      rfl
    | ok u =>
      dsimp only [persist] at h
      cases hfinal : Scratch.finalize s.registry.current output s.files with
      | mk final out =>
        rw [hfinal] at h
        cases final with
        | error e' =>
          have hnone : e'.position? = none :=
            position?_of_finalize (congrArg Prod.fst hfinal)
          rw [Except.error.inj (h : Except.error e' = Except.error e)] at hnone
          exact absurd (hnone.symm.trans hposition) nofun
        | ok u => exact absurd h nofun
  · rw [← Except.error.inj h] at hposition
    exact absurd hposition nofun

theorem skipped_runTask (su : Setup T) (total position : Nat) (t : Task T) (s : RunState T) :
    s.skipped ⊆ (su.runTask total position t s).1.skipped := by
  cases hkind : t.kind? with
  | none =>
    unfold runTask
    rw [hkind]
    exact List.subset_append_left _ _
  | some k =>
    have hskipped := (advances_act su hkind position (s.note [.started position total t])).1.skipped
    rw [runTask_of_kind su hkind]
    split
    · rename_i out hout
      rw [hout] at hskipped
      exact hskipped ▸ List.Subset.refl _
    · rename_i out reason hout
      rw [hout] at hskipped
      exact hskipped ▸ List.subset_append_left _ _
    · rename_i out e hout
      rw [hout] at hskipped
      exact hskipped ▸ List.Subset.refl _

theorem skipped_runFrom (su : Setup T) (total position : Nat) (ts : Plan T) (s : RunState T) :
    s.skipped ⊆ (su.runFrom total position ts s).1.skipped := by
  induction ts generalizing position s with
  | nil => exact List.Subset.refl _
  | cons t ts ih =>
    have htask := skipped_runTask su total position t s
    rw [runFrom]
    split
    · rename_i out e hout
      rw [hout] at htask
      exact htask
    · rename_i out hout
      rw [hout] at htask
      exact List.Subset.trans htask (ih (position + 1) out)

theorem skipped_runFrom_take (su : Setup T) (total position n : Nat) (ts : Plan T)
    (s : RunState T) : (su.runFrom total position (ts.take n) s).1.skipped ⊆
      (su.runFrom total position ts s).1.skipped := by
  have hsplit := runFrom_append su total position (ts.take n) (ts.drop n) s
  rw [List.take_append_drop] at hsplit
  rw [hsplit]
  split
  · rename_i out e hout
    exact hout ▸ List.Subset.refl _
  · rename_i out hout
    rw [hout]
    exact skipped_runFrom su total _ (ts.drop n) out

/-- What was passed over stays passed over. -/
theorem skipped_subset_run (hsource : files.isFile source = true) (output : Path) (n : Nat) :
    (su.upTo ts source scratch files n).1.skipped ⊆
      (su.run ts source output scratch files).state.skipped := by
  have hall : (su.upTo ts source scratch files n).1.skipped ⊆
      (su.upTo ts source scratch files ts.length).1.skipped := by
    unfold upTo
    rw [List.take_length]
    exact skipped_runFrom_take su ts.length 1 n ts _
  rw [run_eq hsource]
  split
  · rename_i s e hs
    rw [hs] at hall
    rw [finish_skipped]
    exact hall
  · rename_i s hs
    rw [hs] at hall
    rw [finish_skipped, (persist_frame output s).2]
    exact hall

end

end Setup

end Montage
