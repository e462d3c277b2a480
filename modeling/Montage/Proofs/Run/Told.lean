import Montage.Proofs.Run.Lineage

/-!
# What a task adds to the trace

A task adds its events to the trace, with at most one call of the media tool among them. The call
belongs to the task, and reads what the task has to read. A task that is done has published its
artifact: what its call wrote, or what was found for it.
-/

namespace Montage

/-! ## Calls and completed tasks -/

namespace Event
variable {T : Type}

/-- A call of the media tool, with the position of its task. -/
def call? : Event T → Option (Nat × Invocation)
  | invoked position i _ => some (position, i)
  | _ => none

/-- A completed task, with its position. -/
def completion? : Event T → Option (Nat × Task T)
  | completed position _ t => some (position, t)
  | _ => none

/-- Neither a call nor a completed task. -/
def Quiet (e : Event T) : Prop := e.call? = none ∧ e.completion? = none

theorem filterMap_call?_of_quiet {events : List (Event T)} (h : ∀ e ∈ events, e.Quiet) :
    events.filterMap call? = [] :=
  List.filterMap_eq_nil_iff.mpr fun e he => (h e he).1

theorem filterMap_completion?_of_quiet {events : List (Event T)} (h : ∀ e ∈ events, e.Quiet) :
    events.filterMap completion? = [] :=
  List.filterMap_eq_nil_iff.mpr fun e he => (h e he).2

/-- Quiet events on both sides hide no call. -/
theorem filterMap_call?_between {front behind : List (Event T)} (hfront : ∀ e ∈ front, e.Quiet)
    (hbehind : ∀ e ∈ behind, e.Quiet) (events : List (Event T)) :
    (front ++ events ++ behind).filterMap call? = events.filterMap call? := by
  rw [List.filterMap_append, List.filterMap_append, filterMap_call?_of_quiet hfront,
    filterMap_call?_of_quiet hbehind, List.nil_append, List.append_nil]

theorem filterMap_call?_completed (events : List (Event T)) (position total : Nat) (t : Task T) :
    (events ++ [completed position total t]).filterMap call? = events.filterMap call? := by
  rw [List.filterMap_append]
  exact List.append_nil _

theorem quiet_map {A : Type} {f : A → Event T} (hf : ∀ a, (f a).Quiet) (as : List A) :
    ∀ e ∈ as.map f, e.Quiet := by
  intro e he
  obtain ⟨a, -, rfl⟩ := List.mem_map.mp he
  exact hf a

end Event

/-- What a task has done in a run: the events it has added, and what came of it. At most one of the
events is a call, and the call belongs to the task and reads what the task has to read. -/
structure Told {T : Type} (source : Path) (made : List (Made T)) (position : Nat) (t : Task T)
    (artifact? : Option Path) (s out : RunState T) (outcome : Outcome) (events : List (Event T)) :
    Prop where
  trace : out.trace = s.trace ++ events
  steps : out.steps = s.steps
  count : out.calls = s.calls + (events.filterMap Event.call?).length
  completions : events.filterMap Event.completion? = []
  calls : events.filterMap Event.call? = [] ∨ ∃ i, events.filterMap Event.call? = [(position, i)] ∧
    t.isFetch = false ∧ t.Reads source made i
  registry : match outcome with
    | .done => ∃ artifact, artifact? = some artifact ∧
        Reflects source (made ++ [⟨position, t, artifact⟩]) out.registry ∧
        (t.isFetch = false → ∃ i, events.filterMap Event.call? = [(position, i)] ∧
          i.output = artifact)
    | _ => Reflects source made out.registry

namespace Told
variable {T : Type} {source : Path} {made : List (Made T)} {position : Nat} {t : Task T}
  {artifact? : Option Path} {s s' out : RunState T} {outcome : Outcome}
  {events : List (Event T)}

/-- Events in front that are neither calls nor completed tasks do not matter. -/
theorem of_quiet (h : Told source made position t artifact? s' out outcome events)
    {front : List (Event T)} (hfront : ∀ e ∈ front, e.Quiet) (htrace : s'.trace = s.trace ++ front)
    (hsteps : s'.steps = s.steps) (hcount : s'.calls = s.calls) :
    Told source made position t artifact? s out outcome (front ++ events) := by
  have hcalls : (front ++ events).filterMap Event.call? = events.filterMap Event.call? := by
    rw [List.filterMap_append, Event.filterMap_call?_of_quiet hfront, List.nil_append]
  have hcompletions : (front ++ events).filterMap Event.completion? =
      events.filterMap Event.completion? := by
    rw [List.filterMap_append, Event.filterMap_completion?_of_quiet hfront, List.nil_append]
  constructor
  · rw [h.trace, htrace, List.append_assoc]
  · rw [h.steps, hsteps]
  · rw [hcalls, h.count, hcount]
  · rw [hcompletions, h.completions]
  · rw [hcalls]
    exact h.calls
  · rw [hcalls]
    exact h.registry

/-- A task for which nothing is called, and nothing made. -/
theorem quiet (h : Reflects source made out.registry) (hevents : ∀ e ∈ events, e.Quiet)
    (htrace : out.trace = s.trace ++ events) (hsteps : out.steps = s.steps)
    (hcount : out.calls = s.calls) (houtcome : outcome ≠ .done) :
    Told source made position t artifact? s out outcome events where
  trace := htrace
  steps := hsteps
  count := by rw [Event.filterMap_call?_of_quiet hevents, hcount, List.length_nil, Nat.add_zero]
  completions := Event.filterMap_completion?_of_quiet hevents
  calls := .inl (Event.filterMap_call?_of_quiet hevents)
  registry := by
    cases outcome with
    | done => exact absurd rfl houtcome
    | skipped reason => exact h
    | failed e => exact h

end Told

namespace Setup
variable {T : Type} {su : Setup T} {source : Path} {made : List (Made T)} {s : RunState T}

theorem reflects_of_writeSidecar (h : Reflects source made s.registry) {position : Nat}
    {sidecar? : Option Sidecar} {ready : RunState T}
    (hready : writeSidecar position sidecar? s = (ready, .ok ())) :
    Reflects source made ready.registry := by
  obtain ⟨-, rfl⟩ | ⟨sidecar, files, -, -, rfl⟩ := writeSidecar_ok hready
  · exact h
  · exact h.track sidecar.path

theorem trace_of_writeSidecar {position : Nat} {sidecar? : Option Sidecar} {ready : RunState T}
    (hready : writeSidecar position sidecar? s = (ready, .ok ())) :
    ∃ events, (∀ e ∈ events, e.Quiet) ∧ ready.trace = s.trace ++ events ∧
      ready.steps = s.steps ∧ ready.calls = s.calls := by
  obtain ⟨-, rfl⟩ | ⟨sidecar, files, -, -, rfl⟩ := writeSidecar_ok hready
  · exact ⟨[], by simp, by simp, rfl, rfl⟩
  · have hwrote := List.forall_mem_singleton.mpr
      (show (Event.wrote (T := T) position sidecar.path).Quiet from ⟨rfl, rfl⟩)
    exact ⟨_, hwrote, rfl, rfl, rfl⟩

/-- What a step does before its call does not matter. -/
theorem told_of_ready {t : Task T} {step : StepFiles} {position : Nat} {sidecar? : Option Sidecar}
    {ready out : RunState T} {artifact? : Option Path} {outcome : Outcome} {events : List (Event T)}
    (hready : writeSidecar position sidecar? (prepared t step s) = (ready, .ok ()))
    (h : Told source made position t artifact? ready out outcome events) :
    ∃ events, Told source made position t artifact? s out outcome events := by
  have hmissing : ∀ e ∈ (missingClips s.files t).map (Event.missingClip (T := T)), e.Quiet :=
    Event.quiet_map (fun _ => ⟨rfl, rfl⟩) _
  obtain ⟨front, hfront, htrace, hsteps, hcount⟩ := trace_of_writeSidecar hready
  exact ⟨_, (h.of_quiet hfront htrace hsteps hcount).of_quiet hmissing rfl rfl rfl⟩

/-- What a call adds to the trace. -/
def callEvents (su : Setup T) (position : Nat) (i : Invocation) (s : RunState T) : List (Event T) :=
  .invoked position i s.files :: (su.tool.run s.calls i s.files).log.map Event.reported

theorem filterMap_callEvents (su : Setup T) (position : Nat) (i : Invocation) (s : RunState T) :
    (su.callEvents position i s).filterMap Event.call? = [(position, i)] ∧
      (su.callEvents position i s).filterMap Event.completion? = [] := by
  have hquiet : ∀ e ∈ (su.tool.run s.calls i s.files).log.map (Event.reported (T := T)), e.Quiet :=
    Event.quiet_map (fun _ => ⟨rfl, rfl⟩) _
  have hcall : (Event.invoked position i s.files : Event T).call? = some (position, i) := rfl
  have hcompletion : (Event.invoked position i s.files : Event T).completion? = none := rfl
  unfold callEvents
  constructor
  · rw [List.filterMap_cons_some hcall, Event.filterMap_call?_of_quiet hquiet]
  · rw [List.filterMap_cons_none hcompletion, Event.filterMap_completion?_of_quiet hquiet]

theorem invoke_fst (su : Setup T) (position : Nat) (i : Invocation) (s : RunState T) :
    (su.invoke position i s).1 = { s with
      files := (su.tool.run s.calls i s.files).files
      calls := s.calls + 1
      trace := s.trace ++ su.callEvents position i s } := rfl

/-- What may come of a task: what is found for a fetch, a fresh path for a transformation. -/
def artifact? (su : Setup T) (t : Task T) (s : RunState T) : Option Path :=
  match requestOf? t with
  | some (request, alternatives) =>
    (su.content.search request alternatives s.asked s.scratch s.files).found
  | none => t.kind?.map fun k => s.scratch.next k.wireName "mp4"

theorem requestOf?_eq_none {t : Task T} (h : t.isFetch = false) : requestOf? t = none := by
  unfold requestOf?
  cases hop : t.op with
  | fetchVideo p => simp [Task.isFetch, Task.kind?, Operation.kind?, Kind.isFetch, hop] at h
  | fetchImage p => simp [Task.isFetch, Task.kind?, Operation.kind?, Kind.isFetch, hop] at h
  | _ => rfl

theorem Seeks.artifact? {t : Task T} {request : Request T} {alternatives : List String}
    {name : String} {search : Search T} (h : su.Seeks t s request alternatives name search) :
    su.artifact? t s = search.found := by
  rw [Setup.artifact?, h.asked, ← h.search]

theorem told_fetch (su : Setup T) (h : Reflects source made s.registry) {t : Task T}
    (hfetch : t.isFetch = true) (position : Nat) :
    ∃ events, Told source made position t (su.artifact? t s) s (su.fetch t s).1
      (su.fetch t s).2 events := by
  have hquiet (search : Search T) : ∀ e ∈ search.requests.map Event.asked ++
      search.log.map (Event.reported (T := T)), e.Quiet :=
    List.forall_mem_append.mpr ⟨Event.quiet_map (fun _ => ⟨rfl, rfl⟩) _,
      Event.quiet_map (fun _ => ⟨rfl, rfl⟩) _⟩
  have hsought := sought su t s
  generalize su.fetch t s = result at hsought ⊢
  obtain ⟨out, outcome⟩ := result
  cases hsought with
  | aside _ => exact ⟨[], .quiet h (by simp) (by simp) rfl rfl nofun⟩
  | @missed _ _ name search _ _ =>
    exact ⟨_, .quiet (h.block name) (hquiet search) rfl rfl rfl nofun⟩
  | @found _ _ name search p r hseeks hfound hr =>
    have hcalls := Event.filterMap_call?_of_quiet (hquiet search)
    have hcompletions := Event.filterMap_completion?_of_quiet (hquiet search)
    have hside : ChainEffect.sideArtifact = .mainChain ↔ t.isFetch = false := by simp [hfetch]
    have hreflects : Reflects source made r := by
      rw [hr]
      split_ifs
      · exact h.track p
      · exact h
    have hpublished := hreflects.publish position p .sideArtifact hside
    rw [hseeks.output] at hpublished
    have hartifact : su.artifact? t s = some p := hseeks.artifact?.trans hfound
    refine ⟨_, rfl, rfl, ?_, hcompletions, .inl hcalls, p, hartifact, hpublished, ?_⟩
    · rw [hcalls]
      rfl
    · exact fun hfalse => absurd (hfetch.symm.trans hfalse) nofun

/-- A call that fails has made nothing. -/
theorem told_failed (su : Setup T) (h : Reflects source made s.registry) {t : Task T}
    (hfetch : t.isFetch = false) {i : Invocation} (hreads : t.Reads source made i) (position : Nat)
    (artifact? : Option Path) (e : Failure) :
    Told source made position t artifact? s (su.invoke position i s).1 (.failed e)
      (su.callEvents position i s) := by
  obtain ⟨hcalls, hcompletions⟩ := su.filterMap_callEvents position i s
  refine ⟨rfl, rfl, ?_, hcompletions, .inr ⟨i, hcalls, hfetch, hreads⟩, h⟩
  rw [hcalls]
  rfl

/-- A call that does not fail has made its output, which is published. -/
theorem told_done (su : Setup T) (h : Reflects source made s.registry) {t : Task T}
    (hfetch : t.isFetch = false) {i : Invocation} (hreads : t.Reads source made i)
    (position : Nat) : Told source made position t (some i.output) s
      ((su.invoke position i s).1.publish t.output i.output .mainChain) .done
      (su.callEvents position i s) := by
  obtain ⟨hcalls, hcompletions⟩ := su.filterMap_callEvents position i s
  refine ⟨rfl, rfl, ?_, hcompletions, .inr ⟨i, hcalls, hfetch, hreads⟩, i.output, rfl, ?_,
    fun _ => ⟨i, hcalls, rfl⟩⟩
  · rw [hcalls]
    rfl
  · exact h.publish position i.output .mainChain (by simp [hfetch])

variable [TimeScale T] [Spelled T]

theorem told_transform (su : Setup T) (h : Reflects source made s.registry) {t : Task T} {k : Kind}
    (hkind : t.kind? = some k) (hfetch : k.isFetch = false) (position : Nat) :
    ∃ events, Told source made position t (su.artifact? t s) s (su.transform t k position s).1
      (su.transform t k position s).2 events := by
  have htask : t.isFetch = false := by simp [Task.isFetch, hkind, hfetch]
  have hartifact : su.artifact? t s = some (s.scratch.next k.wireName "mp4") := by
    simp [artifact?, requestOf?_eq_none htask, hkind]
  have hmissing : ∀ e ∈ (missingClips s.files t).map (Event.missingClip (T := T)), e.Quiet :=
    Event.quiet_map (fun _ => ⟨rfl, rfl⟩) _
  have hprepared (step : StepFiles) : Reflects source made (prepared t step s).registry :=
    h.track step.output
  rw [hartifact]
  have htransformed := transformed su t k position s
  generalize su.transform t k position s = result at htransformed ⊢
  obtain ⟨out, outcome⟩ := result
  cases htransformed with
  | missed _ => exact ⟨[], .quiet h (by simp) (by simp) rfl rfl nofun⟩
  | lacking _ _ => exact ⟨_, .quiet h hmissing rfl rfl rfl nofun⟩
  | pointless _ _ => exact ⟨_, .quiet (hprepared _) hmissing rfl rfl rfl nofun⟩
  | refused _ _ => exact ⟨_, .quiet (hprepared _) hmissing rfl rfl rfl nofun⟩
  | @unwritten _ _ sidecar _ _ _ _ =>
    exact ⟨_, .quiet ((hprepared _).track sidecar.path) hmissing rfl rfl rfl nofun⟩
  | @failed _ i _ _ e hgiven hrecipe hready _ =>
    have hreads : t.Reads source made i := reads_of_uses h hgiven.inputs hgiven.attachment
      (Operation.calls_of_recipe hrecipe).inputs
    have hreflects := reflects_of_writeSidecar (hprepared _) hready
    exact told_of_ready hready (told_failed su hreflects htask hreads position _ _)
  | @done _ i _ _ hgiven hrecipe hready _ =>
    have hcalls := Operation.calls_of_recipe hrecipe
    have hreads : t.Reads source made i :=
      reads_of_uses h hgiven.inputs hgiven.attachment hcalls.inputs
    have hreflects := reflects_of_writeSidecar (hprepared _) hready
    rw [← hgiven.output, ← hcalls.output]
    exact told_of_ready hready (told_done su hreflects htask hreads position)

theorem told_act (su : Setup T) (h : Reflects source made s.registry) {t : Task T} {k : Kind}
    (hkind : t.kind? = some k) (position : Nat) :
    ∃ events, Told source made position t (su.artifact? t s) s (su.act t k position s).1
      (su.act t k position s).2 events := by
  have htask : t.isFetch = k.isFetch := by simp [Task.isFetch, hkind]
  unfold act
  split_ifs with hfetch
  · exact told_fetch su h (htask.trans hfetch) position
  · exact told_transform su h hkind (Bool.eq_false_iff.mpr hfetch) position

end Setup

end Montage
