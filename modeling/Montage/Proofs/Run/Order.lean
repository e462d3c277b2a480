import Montage.Proofs.Run.Output
import Montage.Proofs.Run.Told

/-!
# The order of a run

The list of the tasks that a run completes is read off the run, and the trace is read off the list:
main statement, for every plan and whatever the media tool and the content source do. Every call of
the media tool belongs to a task that is known and no fetch; the calls come in the order of the
plan; each reads what the tasks completed before it made; and the output of a run that succeeds has
the contents of what was made last, fetches apart, exactly if it keeps them. It does not where the
final copy takes one file for two: an output that is another way to write the path of the source of
an empty plan is emptied.
-/

namespace Montage

namespace Setup
variable {T : Type}

/-- The end of a run adds neither calls nor completed tasks. -/
theorem trace_finish (output : Path) (answer : Except Failure Unit) (s : RunState T) :
    ∃ events, (∀ e ∈ events, e.Quiet) ∧ (finish output answer s).state.trace = s.trace ++ events ∧
      (finish output answer s).state.calls = s.calls := by
  have hlog : ∀ e ∈ (s.registry.cleanup s.files).2.log.map (Event.reported (T := T)), e.Quiet :=
    Event.quiet_map (fun _ => ⟨rfl, rfl⟩) _
  have hlast {e : Event T} (he : e.Quiet) : ∀ e' ∈
      (s.registry.cleanup s.files).2.log.map Event.reported ++ [e], e'.Quiet :=
    List.forall_mem_append.mpr ⟨hlog, List.forall_mem_singleton.mpr he⟩
  cases answer with
  | error e => exact ⟨_, hlast (e := .failed e) ⟨rfl, rfl⟩, List.append_assoc _ _ _, rfl⟩
  | ok u =>
    exact ⟨_, hlast (e := .finished output s.steps s.skipped.length) ⟨rfl, rfl⟩,
      List.append_assoc _ _ _, rfl⟩

/-! ## The tasks that a run completes -/

variable [TimeScale T] [Spelled T]

/-- What is made when a task is run, which is nothing unless it counts as a step. -/
def madeBy (su : Setup T) (total position : Nat) (t : Task T) (s : RunState T) : List (Made T) :=
  if s.steps < (su.runTask total position t s).1.steps then
    (su.artifact? t s).toList.map fun p => ⟨position, t, p⟩
  else []

/-- What is made by tasks from a position on, until one fails. -/
def madeFrom (su : Setup T) (total : Nat) : Nat → Plan T → RunState T → List (Made T)
  | _, [], _ => []
  | position, t :: ts, s =>
    su.madeBy total position t s ++ match su.runTask total position t s with
      | (_, .error _) => []
      | (s, .ok ()) => su.madeFrom total (position + 1) ts s

/-- What is made in a run. -/
def lineage (su : Setup T) (ts : Plan T) (source : Path) (scratch : Scratch) (files : Files) :
    List (Made T) :=
  if files.isFile source then
    su.madeFrom ts.length 1 ts
      ((RunState.start source ts scratch files).note [.began ts.length source su.tool.name])
  else []

end Setup

/-- The events of tasks that are counted from `first`. What the tasks made is `after`, what was made
before them is `before`. -/
structure Ordered {T : Type} (su : Setup T) (source : Path) (before after : List (Made T))
    (first : Nat) (ts : Plan T) (events : List (Event T)) : Prop where
  /-- The calls are made in the order of the tasks, one for a task. -/
  increasing : (events.filterMap Event.call?).Pairwise fun a b => a.1 < b.1
  /-- The tasks are completed in their order. -/
  successive : after.Pairwise fun a b => a.position < b.position
  /-- Each call belongs to a task that is known and no fetch, and reads what was made last under the
  names of the task, or last of all. -/
  calls : ∀ c ∈ events.filterMap Event.call?, ∃ t k, first ≤ c.1 ∧ ts[c.1 - first]? = some t ∧
    t.kind? = some k ∧ k.isFetch = false ∧
    t.Reads source ((before ++ after).filter fun m => m.position < c.1) c.2
  /-- What was made is what the completed tasks made. -/
  completed : events.filterMap Event.completion? = after.map fun m => (m.position, m.task)
  /-- A transformation made the output of its call, a fetch what the content source found. -/
  artifacts : ∀ m ∈ after, first ≤ m.position ∧ ts[m.position - first]? = some m.task ∧
    (m.task.isFetch = false →
      ∃ i, (m.position, i) ∈ events.filterMap Event.call? ∧ i.output = m.artifact) ∧
    ∀ request alternatives, Setup.requestOf? m.task = some (request, alternatives) →
      ∃ n scratch files,
        (su.content.search request alternatives n scratch files).found = some m.artifact

namespace Ordered
variable {T : Type} {su : Setup T} {source : Path} {before after rest : List (Made T)}
  {first : Nat} {t : Task T} {ts : Plan T} {events more : List (Event T)}

theorem of_quiet (hevents : ∀ e ∈ events, e.Quiet) :
    Ordered su source before [] first ts events := by
  have hcalls := Event.filterMap_call?_of_quiet hevents
  have hcompletions := Event.filterMap_completion?_of_quiet hevents
  refine ⟨?_, .nil, ?_, hcompletions, by simp⟩
  · rw [hcalls]
    exact .nil
  · rw [hcalls]
    simp

/-- Quiet events on both sides do not matter. -/
theorem between_quiet (h : Ordered su source before after first ts events)
    {front behind : List (Event T)} (hfront : ∀ e ∈ front, e.Quiet)
    (hbehind : ∀ e ∈ behind, e.Quiet) :
    Ordered su source before after first ts (front ++ events ++ behind) := by
  have hcalls := Event.filterMap_call?_between hfront hbehind events
  have hcompletions : (front ++ events ++ behind).filterMap Event.completion? =
      events.filterMap Event.completion? := by
    simp [Event.filterMap_completion?_of_quiet hfront, Event.filterMap_completion?_of_quiet hbehind]
  constructor
  · rw [hcalls]
    exact h.increasing
  · exact h.successive
  · rw [hcalls]
    exact h.calls
  · rw [hcompletions]
    exact h.completed
  · rw [hcalls]
    exact h.artifacts

theorem eq_first_of_getElem? {n : Nat} {u : Task T} (hle : first ≤ n)
    (hu : [t][n - first]? = some u) : n = first := by
  have hlt := (List.getElem?_eq_some_iff.mp hu).choose
  simp only [List.length_singleton] at hlt
  omega

theorem first_le_of_mem_calls (h : Ordered su source before after first ts events)
    {c : Nat × Invocation} (hc : c ∈ events.filterMap Event.call?) : first ≤ c.1 := by
  obtain ⟨t, k, hle, -⟩ := h.calls c hc
  exact hle

theorem eq_of_mem_calls (h : Ordered su source before after first [t] events)
    {c : Nat × Invocation} (hc : c ∈ events.filterMap Event.call?) : c.1 = first := by
  obtain ⟨u, k, hle, hu, -⟩ := h.calls c hc
  exact eq_first_of_getElem? hle hu

theorem eq_of_mem_after (h : Ordered su source before after first [t] events) {m : Made T}
    (hm : m ∈ after) : m.position = first := by
  obtain ⟨hle, hu, -⟩ := h.artifacts m hm
  exact eq_first_of_getElem? hle hu

/-- A task in front of others. What they make does not come before any of its calls. -/
theorem cons (h : Ordered su source before after first [t] events)
    (k : Ordered su source (before ++ after) rest (first + 1) ts more) :
    Ordered su source before (after ++ rest) first (t :: ts) (events ++ more) := by
  have hbehind {n : Nat} (hn : first + 1 ≤ n) : (t :: ts)[n - first]? = ts[n - (first + 1)]? := by
    obtain ⟨d, rfl⟩ := Nat.exists_eq_add_of_le hn
    rw [show first + 1 + d - first = d + 1 by omega, show first + 1 + d - (first + 1) = d by omega,
      List.getElem?_cons_succ]
  have hfront {n : Nat} {u : Task T} (hn : [t][n - first]? = some u) :
      (t :: ts)[n - first]? = some u := by
    have hlt := (List.getElem?_eq_some_iff.mp hn).choose
    have hzero : n - first = 0 := by simpa using hlt
    rw [hzero] at hn ⊢
    simpa using hn
  constructor
  · rw [List.filterMap_append, List.pairwise_append]
    refine ⟨h.increasing, k.increasing, fun a ha b hb => ?_⟩
    have hfirst := h.eq_of_mem_calls ha
    have hle := k.first_le_of_mem_calls hb
    omega
  · rw [List.pairwise_append]
    refine ⟨h.successive, k.successive, fun a ha b hb => ?_⟩
    have hfirst := h.eq_of_mem_after ha
    have hle := (k.artifacts b hb).1
    omega
  · intro c hc
    rw [List.filterMap_append] at hc
    rcases List.mem_append.mp hc with hc | hc
    · obtain ⟨u, kind, hle, hu, hkind, hfetch, hreads⟩ := h.calls c hc
      have hrest : rest.filter (fun m => m.position < c.1) = [] := by
        rw [List.filter_eq_nil_iff]
        intro m hm
        have hm' := (k.artifacts m hm).1
        have hc' := h.eq_of_mem_calls hc
        simp only [decide_eq_true_eq]
        omega
      refine ⟨u, kind, hle, hfront hu, hkind, hfetch, ?_⟩
      rw [← List.append_assoc, List.filter_append, hrest, List.append_nil]
      exact hreads
    · obtain ⟨u, kind, hle, hu, hkind, hfetch, hreads⟩ := k.calls c hc
      refine ⟨u, kind, by omega, (hbehind hle).trans hu, hkind, hfetch, ?_⟩
      rw [← List.append_assoc]
      exact hreads
  · rw [List.filterMap_append, List.map_append, h.completed, k.completed]
  · intro m hm
    rw [List.filterMap_append]
    rcases List.mem_append.mp hm with hm | hm
    · obtain ⟨hle, hu, hcall, hfetch⟩ := h.artifacts m hm
      refine ⟨hle, hfront hu, fun hno => ?_, hfetch⟩
      obtain ⟨i, hi, houtput⟩ := hcall hno
      exact ⟨i, List.mem_append_left _ hi, houtput⟩
    · obtain ⟨hle, hu, hcall, hfetch⟩ := k.artifacts m hm
      refine ⟨by omega, (hbehind hle).trans hu, fun hno => ?_, hfetch⟩
      obtain ⟨i, hi, houtput⟩ := hcall hno
      exact ⟨i, List.mem_append_right _ hi, houtput⟩

end Ordered

namespace Told
variable {T : Type} {su : Setup T} {source : Path} {before : List (Made T)} {position : Nat}
  {t : Task T} {k : Kind} {s s' out : RunState T} {outcome : Outcome} {events : List (Event T)}

/-- The call of a task, if there is one, is that of a transformation whose list of completed tasks
is the one before it. -/
theorem reads (h : Told source before position t (su.artifact? t s) s' out outcome events)
    (hkind : t.kind? = some k) (hbefore : ∀ m ∈ before, m.position < position)
    {after : List (Made T)} (hafter : ∀ m ∈ after, m.position = position) {c : Nat × Invocation}
    (hc : c ∈ events.filterMap Event.call?) :
    ∃ u k, position ≤ c.1 ∧ [t][c.1 - position]? = some u ∧ u.kind? = some k ∧
      k.isFetch = false ∧
      u.Reads source ((before ++ after).filter fun m => m.position < c.1) c.2 := by
  rcases h.calls with hnone | ⟨i, hi, hfetch, hreads⟩
  · rw [hnone] at hc
    exact absurd hc List.not_mem_nil
  · rw [hi] at hc
    obtain rfl := List.mem_singleton.mp hc
    have hkeep : before.filter (fun m => m.position < position) = before :=
      List.filter_eq_self.mpr fun m hm => by simpa using hbefore m hm
    have hdrop : after.filter (fun m => m.position < position) = [] :=
      List.filter_eq_nil_iff.mpr fun m hm => by simp [hafter m hm]
    have hk : k.isFetch = false := by simpa [Task.isFetch, hkind] using hfetch
    refine ⟨t, k, Nat.le_refl position, by simp, hkind, hk, ?_⟩
    rw [List.filter_append, hkeep, hdrop, List.append_nil]
    exact hreads

theorem increasing (h : Told source before position t (su.artifact? t s) s' out outcome events) :
    (events.filterMap Event.call?).Pairwise fun a b => a.1 < b.1 := by
  rcases h.calls with hnone | ⟨i, hi, -⟩
  · rw [hnone]
    exact .nil
  · rw [hi]
    exact List.pairwise_singleton _ _

theorem ordered_of_not_done
    (h : Told source before position t (su.artifact? t s) s' out outcome events)
    (hkind : t.kind? = some k) (hbefore : ∀ m ∈ before, m.position < position) :
    Ordered su source before [] position [t] events where
  increasing := h.increasing
  successive := .nil
  calls _ hc := h.reads hkind hbefore (by simp) hc
  completed := h.completions
  artifacts := by simp

/-- A completed task has made one artifact. -/
theorem ordered_of_done (h : Told source before position t (su.artifact? t s) s' out .done events)
    (hkind : t.kind? = some k) (hbefore : ∀ m ∈ before, m.position < position) (total : Nat) :
    ∃ p, su.artifact? t s = some p ∧ Reflects source (before ++ [⟨position, t, p⟩]) out.registry ∧
      Ordered su source before [⟨position, t, p⟩] position [t]
        (events ++ [.completed position total t]) := by
  obtain ⟨p, hp, hreflects, hcall⟩ := h.registry
  have hcalls := Event.filterMap_call?_completed events position total t
  refine ⟨p, hp, hreflects, ?_, List.pairwise_singleton _ _, ?_, ?_, ?_⟩
  · rw [hcalls]
    exact h.increasing
  · rw [hcalls]
    exact fun c hc => h.reads hkind hbefore (by simp) hc
  · rw [List.filterMap_append, h.completions]
    rfl
  · intro m hm
    obtain rfl := List.mem_singleton.mp hm
    refine ⟨Nat.le_refl position, by simp, fun hno => ?_, fun request alternatives hrequest => ?_⟩
    · obtain ⟨i, hi, houtput⟩ := hcall hno
      rw [hcalls, hi]
      exact ⟨i, List.mem_singleton_self _, houtput⟩
    · simp only [Setup.artifact?, hrequest] at hp
      exact ⟨s.asked, s.scratch, s.files, hp⟩

end Told

namespace Setup
variable {T : Type} [TimeScale T] [Spelled T] {su : Setup T} {source : Path}
  {before : List (Made T)} {s : RunState T}

/-- A task of a known kind is told by its events, and by what follows from its outcome. -/
theorem runTask_told (su : Setup T) (h : Reflects source before s.registry) {t : Task T} {k : Kind}
    (hkind : t.kind? = some k) (total position : Nat) :
    ∃ out outcome events,
      Told source before position t (su.artifact? t s) (s.note [.started position total t]) out
        outcome events ∧
      su.runTask total position t s = match outcome with
        | .done => ({ out with steps := out.steps + 1 }.note [.completed position total t], .ok ())
        | .skipped reason =>
          let skip : Skipped := ⟨position, t.op.typeName, reason⟩
          ({ out with skipped := out.skipped ++ [skip] }.note [.skipped skip], .ok ())
        | .failed e => (out, .error e) := by
  have hstarted : Reflects source before (s.note [.started position total t]).registry := h
  obtain ⟨events, htold⟩ := told_act su hstarted hkind position
  refine ⟨_, _, events, htold, ?_⟩
  rw [runTask_of_kind su hkind]
  generalize su.act t k position (s.note [.started position total t]) = result
  obtain ⟨out, outcome⟩ := result
  cases outcome with
  | done => rfl
  | skipped reason => rfl
  | failed e => rfl

theorem ordered_runTask (su : Setup T) (h : Reflects source before s.registry) {position : Nat}
    (hbefore : ∀ m ∈ before, m.position < position) (total : Nat) (t : Task T) :
    ∃ events, (su.runTask total position t s).1.trace = s.trace ++ events ∧
      (su.runTask total position t s).1.calls =
        s.calls + (events.filterMap Event.call?).length ∧
      Reflects source (before ++ su.madeBy total position t s)
        (su.runTask total position t s).1.registry ∧
      Ordered su source before (su.madeBy total position t s) position [t] events := by
  cases hkind : t.kind? with
  | none =>
    obtain ⟨skip, hrun⟩ : ∃ skip, su.runTask total position t s =
        ({ s with skipped := s.skipped ++ [skip] }.note [.unknown skip], .ok ()) := by
      rw [runTask_of_unknown su hkind]
      exact ⟨_, rfl⟩
    have hmade : su.madeBy total position t s = [] := by
      unfold madeBy
      rw [hrun]
      exact if_neg (Nat.lt_irrefl s.steps)
    rw [hmade, hrun, List.append_nil]
    exact ⟨[.unknown skip], rfl, rfl, h, .of_quiet (List.forall_mem_singleton.mpr ⟨rfl, rfl⟩)⟩
  | some k =>
    obtain ⟨out, outcome, events, htold, hrun⟩ := runTask_told su h hkind total position
    have hstarted : ∀ e ∈ [Event.started position total t], e.Quiet :=
      List.forall_mem_singleton.mpr ⟨rfl, rfl⟩
    unfold madeBy
    rw [hrun]
    cases outcome with
    | done =>
      obtain ⟨p, hp, hreflects, hordered⟩ := htold.ordered_of_done hkind hbefore total
      have hsteps : s.steps < out.steps + 1 := by
        rw [htold.steps]
        exact Nat.lt_succ_self s.steps
      refine ⟨[.started position total t] ++ (events ++ [.completed position total t]) ++ [], ?_⟩
      simp only [RunState.note, hsteps, if_true, hp, Option.toList_some, List.map_cons,
        List.map_nil]
      refine ⟨?_, ?_, hreflects, hordered.between_quiet hstarted (by simp)⟩
      · rw [htold.trace]
        simp [RunState.note]
      · rw [Event.filterMap_call?_between hstarted (by simp), Event.filterMap_call?_completed]
        exact htold.count
    | skipped reason =>
      have hordered := htold.ordered_of_not_done hkind hbefore
      have hskipped : ∀ e ∈ [Event.skipped (T := T) ⟨position, t.op.typeName, reason⟩], e.Quiet :=
        List.forall_mem_singleton.mpr ⟨rfl, rfl⟩
      have hsteps : ¬ s.steps < out.steps := by
        rw [htold.steps]
        exact Nat.lt_irrefl s.steps
      refine ⟨[.started position total t] ++ events ++ [.skipped ⟨position, t.op.typeName, reason⟩],
        ?_⟩
      simp only [RunState.note, hsteps, if_false, List.append_nil]
      refine ⟨?_, ?_, htold.registry, hordered.between_quiet hstarted hskipped⟩
      · rw [htold.trace]
        simp [RunState.note]
      · rw [Event.filterMap_call?_between hstarted hskipped]
        exact htold.count
    | failed e =>
      have hordered := htold.ordered_of_not_done hkind hbefore
      have hsteps : ¬ s.steps < out.steps := by
        rw [htold.steps]
        exact Nat.lt_irrefl s.steps
      refine ⟨[.started position total t] ++ events ++ [], ?_⟩
      simp only [hsteps, if_false, List.append_nil (before)]
      refine ⟨?_, ?_, htold.registry, hordered.between_quiet hstarted (by simp)⟩
      · rw [htold.trace]
        simp [RunState.note]
      · rw [Event.filterMap_call?_between hstarted (by simp)]
        exact htold.count

/-- The tasks of a plan, as far as they are run, are told by their events in order. -/
theorem ordered_runFrom (su : Setup T) (h : Reflects source before s.registry) {position : Nat}
    (hbefore : ∀ m ∈ before, m.position < position) (total : Nat) (ts : Plan T) :
    ∃ events, (su.runFrom total position ts s).1.trace = s.trace ++ events ∧
      (su.runFrom total position ts s).1.calls =
        s.calls + (events.filterMap Event.call?).length ∧
      Reflects source (before ++ su.madeFrom total position ts s)
        (su.runFrom total position ts s).1.registry ∧
      Ordered su source before (su.madeFrom total position ts s) position ts events := by
  induction ts generalizing position before s with
  | nil =>
    refine ⟨[], (List.append_nil _).symm, rfl, ?_, .of_quiet (by simp)⟩
    rw [madeFrom, List.append_nil]
    exact h
  | cons t ts ih =>
    obtain ⟨events, htrace, hcount, hreflects, hordered⟩ :=
      ordered_runTask su h hbefore total t
    unfold runFrom madeFrom
    cases hrun : su.runTask total position t s with
    | mk s' answer =>
      rw [hrun] at htrace hcount hreflects
      cases answer with
      | error e =>
        refine ⟨events ++ [], ?_, ?_, ?_, hordered.cons (.of_quiet (by simp))⟩
        · rw [List.append_nil]
          exact htrace
        · rw [List.append_nil]
          exact hcount
        · rw [List.append_nil]
          exact hreflects
      | ok u =>
        have hnext : ∀ m ∈ before ++ su.madeBy total position t s, m.position < position + 1 := by
          intro m hm
          rcases List.mem_append.mp hm with hm | hm
          · exact Nat.lt_succ_of_lt (hbefore m hm)
          · rw [hordered.eq_of_mem_after hm]
            exact Nat.lt_succ_self position
        obtain ⟨more, htrace', hcount', hreflects', hordered'⟩ := ih hreflects hnext
        refine ⟨events ++ more, ?_, ?_, ?_, hordered.cons hordered'⟩
        · dsimp only at htrace htrace' ⊢
          rw [htrace', htrace, List.append_assoc]
        · dsimp only at hcount hcount' ⊢
          rw [hcount', hcount, List.filterMap_append, List.length_append, Nat.add_assoc]
        · dsimp only
          rw [← List.append_assoc]
          exact hreflects'

/-! ## Whole runs -/

/-- When the last task of a run on a file is done, or one has failed. -/
theorem ordered_reached (su : Setup T) (ts : Plan T) {source : Path} (scratch : Scratch)
    {files : Files} (hsource : files.isFile source = true) :
    (su.reached ts source scratch files).calls =
        ((su.reached ts source scratch files).trace.filterMap Event.call?).length ∧
      Reflects source (su.lineage ts source scratch files)
        (su.reached ts source scratch files).registry ∧
      Ordered su source [] (su.lineage ts source scratch files) 1 ts
        (su.reached ts source scratch files).trace := by
  have hbegan : ∀ e ∈ [Event.began (T := T) ts.length source su.tool.name], e.Quiet :=
    List.forall_mem_singleton.mpr ⟨rfl, rfl⟩
  have hinitial : Reflects source ([] : List (Made T)) ((RunState.start source ts scratch
      files).note [.began ts.length source su.tool.name]).registry :=
    .initial source (ts.filterMap Task.output)
  have hbefore : ∀ m ∈ ([] : List (Made T)), m.position < 1 := by simp
  obtain ⟨events, htrace, hcount, hreflects, hordered⟩ :=
    ordered_runFrom su hinitial hbefore ts.length ts
  have hwhole : (su.reached ts source scratch files).trace =
      [.began ts.length source su.tool.name] ++ events ++ [] := by
    rw [List.append_nil]
    exact htrace
  unfold lineage
  rw [hwhole, if_pos hsource, Event.filterMap_call?_between hbegan (by simp)]
  refine ⟨?_, hreflects, hordered.between_quiet hbegan (by simp)⟩
  exact hcount.trans (Nat.zero_add _)

/-- Persisting and cleaning up neither call the media tool nor complete a task. -/
theorem trace_run (su : Setup T) (ts : Plan T) {source : Path} (output : Path) (scratch : Scratch)
    {files : Files} (hsource : files.isFile source = true) :
    ∃ events, (∀ e ∈ events, e.Quiet) ∧
      (su.run ts source output scratch files).state.trace =
        (su.reached ts source scratch files).trace ++ events ∧
      (su.run ts source output scratch files).state.calls =
        (su.reached ts source scratch files).calls := by
  unfold run runOn reached
  simp only [hsource, if_true]
  generalize su.runFrom ts.length 1 ts ((RunState.start source ts scratch files).note
    [.began ts.length source su.tool.name]) = result
  obtain ⟨s, answer⟩ := result
  cases answer with
  | error e => exact trace_finish output (.error e) s
  | ok u =>
    dsimp only [persist]
    cases Scratch.finalize s.registry.current output s.files with
    | mk final fs =>
      cases final with
      | error e => exact trace_finish output (.error e) { s with files := fs }
      | ok u =>
        exact trace_finish output (.ok ())
          { s with files := fs, registry := s.registry.persist output }

/-- The tasks of a whole run are told by its trace in order. -/
theorem ordered_run (su : Setup T) (ts : Plan T) (source output : Path) (scratch : Scratch)
    (files : Files) :
    Ordered su source [] (su.lineage ts source scratch files) 1 ts
      (su.run ts source output scratch files).state.trace := by
  by_cases hsource : files.isFile source = true
  · obtain ⟨-, -, hordered⟩ := ordered_reached su ts scratch hsource
    obtain ⟨events, hquiet, htrace, -⟩ := trace_run su ts output scratch hsource
    have hfront : ∀ e ∈ ([] : List (Event T)), e.Quiet := List.forall_mem_nil _
    rw [htrace, ← List.nil_append (RunState.trace _)]
    exact hordered.between_quiet hfront hquiet
  · have hrun : su.run ts source output scratch files =
        ⟨.error (.validation ("input " ++ source.text ++ " does not exist")),
          RunState.start source ts scratch files⟩ := by
      simp only [run, hsource, Bool.false_eq_true, if_false]
    have hmade : su.lineage ts source scratch files = [] := if_neg hsource
    rw [hrun, hmade]
    exact .of_quiet (List.forall_mem_nil _)

/-- The calls of a run come in the order of the plan, and each reads what the tasks completed before
it made. The output of a run that succeeds has the contents of what was made last, fetches apart, or
of the source, exactly if it keeps them. -/
theorem run_ordered (su : Setup T) (ts : Plan T) (source output : Path) (scratch : Scratch)
    (files : Files) :
    let made := su.lineage ts source scratch files
    let s := su.reached ts source scratch files
    let last := su.run ts source output scratch files
    Ordered su source [] made 1 ts last.state.trace ∧
    last.state.calls = (last.state.trace.filterMap Event.call?).length ∧
    ∀ report, last.answer = .ok report →
      ((Made.chain source made).same output = true ∨
        ∃ bytes, s.files.read (Made.chain source made) = .ok bytes) ∧
      ∀ bytes, s.files.read (Made.chain source made) = .ok bytes →
        (last.state.files.read output = .ok bytes ↔
          last.state.files.Keeps (Made.chain source made) output
            (s.registry.transients.map Transient.path) bytes) := by
  intro made s last
  refine ⟨ordered_run su ts source output scratch files, ?_⟩
  by_cases hsource : files.isFile source = true
  · obtain ⟨hcount, hreflects, -⟩ := ordered_reached su ts scratch hsource
    obtain ⟨events, hquiet, htrace, hcalls⟩ := trace_run su ts output scratch hsource
    refine ⟨?_, fun report hreport => ?_⟩
    · change (su.run ts source output scratch files).state.calls =
        ((su.run ts source output scratch files).state.trace.filterMap Event.call?).length
      rw [hcalls, htrace, hcount, List.filterMap_append, Event.filterMap_call?_of_quiet hquiet,
        List.append_nil]
    · have hcurrent : s.registry.current = Made.chain source made := hreflects.current
      rcases su.run_cases ts output scratch hsource with
        ⟨⟨e, he⟩, -⟩ | ⟨-, fs, hfinal, hfiles⟩
      · exact absurd (he.symm.trans hreport) (by simp)
      · change _ ∧ ∀ bytes, s.files.read (Made.chain source made) = .ok bytes →
          ((su.run ts source output scratch files).state.files.read output = .ok bytes ↔
            (su.run ts source output scratch files).state.files.Keeps (Made.chain source made)
              output (s.registry.transients.map Transient.path) bytes)
        rw [hfiles, ← hcurrent]
        refine ⟨?_, fun bytes hread => ?_⟩
        · cases hsame : s.registry.current.same output with
          | true => exact .inl rfl
          | false => exact .inr (Scratch.finalize_reads hfinal hsame)
        · exact Registry.read_output_iff hreflects.produced hfinal hread
  · have hrun : last = ⟨.error (.validation ("input " ++ source.text ++ " does not exist")),
        RunState.start source ts scratch files⟩ := by
      simp only [last, run, hsource, Bool.false_eq_true, if_false]
    rw [hrun]
    exact ⟨rfl, fun report hreport => absurd hreport (by simp)⟩

/-- The empty plan, with the source as its output written in another way: the run succeeds, and the
source is empty behind it. -/
theorem run_onto_source_empties :
    (deskSetup.run [] ⟨"/in.mp4"⟩ ⟨"/scratch/../in.mp4"⟩ deskScratch
        desk).answer.toOption.isSome = true ∧
      Made.chain ⟨"/in.mp4"⟩ (deskSetup.lineage [] ⟨"/in.mp4"⟩ deskScratch desk) = ⟨"/in.mp4"⟩ ∧
      ((deskSetup.reached [] ⟨"/in.mp4"⟩ deskScratch desk).files.read ⟨"/in.mp4"⟩).toOption =
        some "src".toUTF8 ∧
      ((deskSetup.run [] ⟨"/in.mp4"⟩ ⟨"/scratch/../in.mp4"⟩ deskScratch desk).state.files.read
        ⟨"/scratch/../in.mp4"⟩).toOption = some ByteArray.empty := by
  decide +kernel

end Setup

end Montage
