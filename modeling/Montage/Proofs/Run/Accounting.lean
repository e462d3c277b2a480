import Montage.Proofs.Run.Progress

/-!
# What a run accounts for

A task that does not end its run is completed or passed over, and a book is kept of which it was.
What the run reports is read off the book, whatever the media tool and the content source do. Main
statement: steps and skipped tasks add up to the plan, the media tool is called once for each
completed task that is no fetch and for no other, and the names that are listed are those of the
completed tasks. In a run that fails for a task nothing is called behind it, and nothing is called
for the task itself if it fails for a name.
-/

namespace Montage

/-- The task could not be run for a name that stands for nothing. -/
def Failure.isOfName : Failure → Bool
  | unresolved _ _ _ _ => true
  | blocked _ _ _ => true
  | _ => false

/-! ## The names that are listed -/

namespace Registry

/-- The registry lists the names in `given`, each where it is first given, but for that of the
source. -/
structure Lists (r : Registry) (given : List String) : Prop where
  produced : r.produced = given.eraseDups.filter (· ≠ sourceName)
  nodup : r.produced.Nodup
  resolved : ∀ name, (r.resolve? name).isSome = true ↔ name = sourceName ∨ name ∈ given

namespace Lists
variable {r r' : Registry} {given : List String}

theorem initial (source : Path) (declared : List String) : (start source declared).Lists [] where
  produced := rfl
  nodup := .nil
  resolved name := by
    by_cases hname : name = sourceName
    · simp [resolve?, start, hname]
    · have hne : (name == sourceName) = false := by simpa using hname
      simp [resolve?, start, List.lookup_cons, hne, hname]

theorem congr (h : r.Lists given) (hnames : r'.names = r.names)
    (hproduced : r'.produced = r.produced) : r'.Lists given where
  produced := hproduced.trans h.produced
  nodup := hproduced ▸ h.nodup
  resolved name := by
    unfold resolve?
    rw [hnames]
    exact h.resolved name

theorem isSome_resolve? (h : r.Lists given) (name : String) :
    (r.resolve? name).isSome = decide (name = sourceName ∨ name ∈ given) :=
  Bool.eq_iff_iff.mpr ((h.resolved name).trans decide_eq_true_iff.symm)

/-- A name that is given again, or that of the source, is not listed again. -/
theorem produced_bind (h : r.Lists given) (name : String) (p : Path) :
    (r.bind name p).produced =
      r.produced ++ if name = sourceName ∨ name ∈ given then [] else [name] := by
  simp only [Registry.bind, h.isSome_resolve? name, decide_eq_true_eq]
  split_ifs
  · rw [List.append_nil]
  · rfl

theorem bind (h : r.Lists given) (name : String) (p : Path) :
    (r.bind name p).Lists (given ++ [name]) where
  produced := by
    rw [h.produced_bind, h.produced, List.eraseDups_append, List.filter_append]
    congr 1
    by_cases hgiven : name ∈ given
    · simp [List.removeAll, hgiven]
    · by_cases hsource : name = sourceName
      · subst hsource
        simp [List.removeAll, hgiven]
      · simp [List.removeAll, hgiven, List.eraseDups_cons, hsource]
  nodup := by
    rw [h.produced_bind]
    split_ifs with hknown
    · rw [List.append_nil]
      exact h.nodup
    · have hnew : name ∉ r.produced := by
        rw [h.produced, List.mem_filter, List.mem_eraseDups]
        exact fun hmem => hknown (Or.inr hmem.1)
      exact List.nodup_append.mpr ⟨h.nodup, List.nodup_singleton name, by
        rintro other hother _ hlast rfl
        exact hnew (List.mem_singleton.mp hlast ▸ hother)⟩
  resolved other := by
    by_cases hname : other = name
    · simp [resolve?, Registry.bind, hname]
    · have hne : (other == name) = false := by simpa using hname
      have hold := h.resolved other
      simp only [resolve?] at hold
      simp [resolve?, Registry.bind, List.lookup_cons, hne, hname, hold]

theorem publish (h : r.Lists given) (name? : Option String) (p : Path) (effect : ChainEffect) :
    (r.publish name? p effect).Lists (given ++ name?.toList) := by
  cases name? with
  | none =>
    rw [Option.toList_none, List.append_nil]
    cases effect <;> exact h.congr rfl rfl
  | some name => cases effect <;> exact (h.bind name p).congr rfl rfl

end Lists

end Registry

/-! ## The book -/

/-- The tasks of a plan at their positions, without those that were passed over. -/
def Plan.unskipped {T : Type} (ts : Plan T) (skips : List Skipped) : List (Task T × Nat) :=
  (ts.zipIdx 1).filter fun m => !(skips.map Skipped.position).contains m.2

/-- A task at its position that did not end its run, with the reason if it was passed over. -/
structure Posting (T : Type) where
  task : Task T
  position : Nat
  reason? : Option String

namespace Posting
variable {T : Type}

def place (e : Posting T) : Task T × Nat := (e.task, e.position)

def skip? (e : Posting T) : Option Skipped :=
  e.reason?.map fun reason => ⟨e.position, e.task.op.typeName, reason⟩

/-- The completed tasks of a book at their positions. -/
def done (book : List (Posting T)) : List (Task T × Nat) :=
  (book.filter fun e => e.reason?.isNone).map place

/-- The tasks of a book that were passed over. -/
def skips (book : List (Posting T)) : List Skipped := book.filterMap skip?

theorem done_append (book rest : List (Posting T)) :
    done (book ++ rest) = done book ++ done rest := by
  rw [done, List.filter_append, List.map_append, done, done]

theorem skips_append (book rest : List (Posting T)) :
    skips (book ++ rest) = skips book ++ skips rest := List.filterMap_append

theorem length_done_add (book : List (Posting T)) :
    (done book).length + (skips book).length = book.length := by
  induction book with
  | nil => rfl
  | cons e book ih =>
    cases hreason : e.reason? with
    | none => simp [done, skips, skip?, hreason] at ih ⊢; omega
    | some reason => simp [done, skips, skip?, hreason] at ih ⊢; omega

theorem mem_skips {book : List (Posting T)} {skip : Skipped} (h : skip ∈ skips book) :
    ∃ e ∈ book, e.reason?.isSome = true ∧ skip.position = e.position ∧
      skip.step = e.task.op.typeName := by
  obtain ⟨e, he, hskip⟩ := List.mem_filterMap.mp h
  obtain ⟨reason, hreason, rfl⟩ := Option.map_eq_some_iff.mp hskip
  exact ⟨e, he, hreason ▸ rfl, rfl, rfl⟩

theorem positions_skips (book : List (Posting T)) :
    (skips book).map Skipped.position =
      (book.filter fun e => e.reason?.isSome).map Posting.position := by
  induction book with
  | nil => rfl
  | cons e book ih =>
    cases hreason : e.reason? with
    | none => simpa [skips, skip?, hreason] using ih
    | some reason => simpa [skips, skip?, hreason] using ih

section
variable {book : List (Posting T)} {position : Nat} {ts : Plan T}

theorem positions_eq (h : book.map place = ts.zipIdx position) :
    book.map Posting.position = List.range' position ts.length := by
  rw [← List.zipIdx_map_snd, ← h, List.map_map]
  rfl

theorem pairwise_skips (h : book.map place = ts.zipIdx position) :
    ((skips book).map Skipped.position).Pairwise (· < ·) := by
  have hall : (book.map Posting.position).Pairwise (· < ·) := by
    rw [positions_eq h]
    exact List.pairwise_lt_range' 1
  rw [positions_skips]
  exact hall.sublist (List.filter_sublist.map _)

/-- Each posting is read off its position. -/
theorem mem_positions_skips (h : book.map place = ts.zipIdx position) {e : Posting T}
    (he : e ∈ book) :
    e.position ∈ (skips book).map Skipped.position ↔ e.reason?.isSome = true := by
  have hnodup : (book.map Posting.position).Nodup := by
    rw [positions_eq h]
    exact List.nodup_range'
  rw [positions_skips]
  constructor
  · intro hmem
    obtain ⟨e', he', hposition⟩ := List.mem_map.mp hmem
    obtain ⟨he', hreason⟩ := List.mem_filter.mp he'
    exact List.inj_on_of_nodup_map hnodup he' he hposition ▸ hreason
  · exact fun hreason => List.mem_map_of_mem (List.mem_filter.mpr ⟨he, hreason⟩)

theorem done_eq_unskipped (h : book.map place = ts.zipIdx 1) :
    done book = ts.unskipped (skips book) := by
  rw [done, Plan.unskipped, ← h, List.filter_map]
  congr 1
  apply List.filter_congr
  intro e he
  have hskipped : ((skips book).map Skipped.position).contains e.position = e.reason?.isSome :=
    Bool.eq_iff_iff.mpr (List.contains_iff_mem.trans (mem_positions_skips h he))
  rw [Function.comp_apply, place, hskipped]
  cases e.reason? <;> rfl

end

end Posting

namespace Setup
variable {T : Type} {s out : RunState T} {t : Task T} {position : Nat}

/-! ## What a task fails with -/

section
variable {r : Registry} {fs : Files} {e : Failure}

theorem position?_of_resolve {step name : String}
    (h : resolve r step position name = .error e) : e.position? = some position := by
  unfold resolve at h
  split at h
  · exact absurd h nofun
  · split_ifs at h <;> exact Except.error.inj h ▸ rfl

theorem position?_of_inputsOf (h : inputsOf r fs position t = .error e) :
    e.position? = some position := by
  unfold inputsOf at h
  split_ifs at h
  · split at h <;> exact absurd h nofun
  · obtain ⟨name, -, hname⟩ := exists_of_mapM_error h
    exact position?_of_resolve hname

theorem position?_of_attachmentOf (h : attachmentOf r fs position t = .error e) :
    e.position? = some position := by
  unfold attachmentOf at h
  split at h
  · rename_i p _
    cases hclip : resolve r t.op.typeName position p.clip with
    | ok file =>
      rw [hclip] at h
      exact absurd h nofun
    | error cause =>
      rw [hclip] at h
      exact Except.error.inj h ▸ position?_of_resolve hclip
  · split at h
    · exact absurd h nofun
    · split_ifs at h
      exact Except.error.inj h ▸ rfl
  · exact absurd h nofun

end

/-! ## What a task does -/

/-- What an act does to the names that are listed and to the number of calls: a task that is done
has published its output, one that is passed over has called nothing, and one that fails has called
nothing if it fails for a name. -/
inductive Acted (t : Task T) (position : Nat) (s out : RunState T) : Outcome → Prop
  | done {r : Registry} (p : Path) (effect : ChainEffect) (hnames : r.names = s.registry.names)
      (hproduced : r.produced = s.registry.produced)
      (h : out.registry = r.publish t.output p effect) : Acted t position s out .done
  | skipped {reason : String} (hnames : out.registry.names = s.registry.names)
      (hproduced : out.registry.produced = s.registry.produced) (hcalls : out.calls = s.calls) :
      Acted t position s out (.skipped reason)
  | failed {e : Failure} (hposition : e.position? = some position)
      (hcalls : e.isOfName = true → out.calls = s.calls) : Acted t position s out (.failed e)

theorem acted_fetch (su : Setup T) (t : Task T) (position : Nat) (s : RunState T) :
    Acted t position s (su.fetch t s).1 (su.fetch t s).2 := by
  have h := sought su t s
  generalize su.fetch t s = result at h ⊢
  obtain ⟨out, outcome⟩ := result
  cases h with
  | aside _ => exact .skipped rfl rfl rfl
  | @missed _ _ name _ _ _ =>
    exact .skipped (Registry.block_names _ name) (Registry.block_produced _ name) rfl
  | @found _ _ _ _ p r hseeks _ hr =>
    have hkept : r.names = s.registry.names ∧ r.produced = s.registry.produced := by
      rw [hr]
      split_ifs
      · exact ⟨Registry.track_names _ p, Registry.track_produced _ p⟩
      · exact ⟨rfl, rfl⟩
    exact .done p .sideArtifact hkept.1 hkept.2 (by rw [hseeks.output])

/-- Neither the paths taken for a step nor its sidecar have a name. -/
theorem names_of_writeSidecar {sidecar? : Option Sidecar} {step : StepFiles} {ready : RunState T}
    (h : writeSidecar position sidecar? (prepared t step s) = (ready, .ok ())) :
    ready.registry.names = s.registry.names ∧ ready.registry.produced = s.registry.produced := by
  have hprepared : (prepared t step s).registry.names = s.registry.names ∧
      (prepared t step s).registry.produced = s.registry.produced :=
    ⟨Registry.track_names s.registry step.output, Registry.track_produced s.registry step.output⟩
  obtain ⟨-, rfl⟩ | ⟨sidecar, files, -, -, rfl⟩ := writeSidecar_ok h
  · exact hprepared
  · exact ⟨(Registry.track_names _ sidecar.path).trans hprepared.1,
      (Registry.track_produced _ sidecar.path).trans hprepared.2⟩

variable [TimeScale T] [Spelled T]

theorem acted_transform (su : Setup T) (t : Task T) (k : Kind) (position : Nat) (s : RunState T) :
    Acted t position s (su.transform t k position s).1 (su.transform t k position s).2 := by
  have h := transformed su t k position s
  generalize su.transform t k position s = result at h ⊢
  obtain ⟨out, outcome⟩ := result
  cases h with
  | missed _ => exact .skipped rfl rfl rfl
  | lacking _ hlacks =>
    exact .failed (hlacks.elim position?_of_inputsOf position?_of_attachmentOf) fun _ => rfl
  | @pointless step _ _ _ =>
    exact .skipped (Registry.track_names _ step.output) (Registry.track_produced _ step.output) rfl
  | refused _ _ => exact .failed rfl nofun
  | unwritten _ _ _ => exact .failed rfl nofun
  | failed _ _ _ _ => exact .failed rfl nofun
  | @done step _ _ _ _ _ hready _ =>
    obtain ⟨hnames, hproduced⟩ := names_of_writeSidecar hready
    exact .done step.output .mainChain hnames hproduced rfl

theorem acted_act (su : Setup T) (t : Task T) (k : Kind) (position : Nat) (s : RunState T) :
    Acted t position s (su.act t k position s).1 (su.act t k position s).2 := by
  unfold act
  split_ifs
  · exact acted_fetch su t position s
  · exact acted_transform su t k position s

/-- The media tool was called for these tasks, in their order. -/
def callsOf (events : List (Event T)) : List Nat := (events.filterMap Event.call?).map Prod.fst

omit [TimeScale T] [Spelled T] in
theorem callsOf_append (events more : List (Event T)) :
    callsOf (events ++ more) = callsOf events ++ callsOf more := by
  rw [callsOf, List.filterMap_append, List.map_append, callsOf, callsOf]

omit [TimeScale T] [Spelled T] in
theorem callsOf_singleton {e : Event T} (h : e.call? = none) : callsOf [e] = [] := by
  rw [callsOf, List.filterMap_cons_none h, List.filterMap_nil, List.map_nil]

/-- Between two states of a run, the tasks in a book were run, and the run accounts for them. -/
structure Booked (s out : RunState T) (events : List (Event T)) (book : List (Posting T)) :
    Prop where
  steps : out.steps = s.steps + (Posting.done book).length
  skipped : out.skipped = s.skipped ++ Posting.skips book
  calls : callsOf events = ((Posting.done book).filter fun m => !m.1.isFetch).map Prod.snd
  completions : events.filterMap Event.completion? = (Posting.done book).map Prod.swap
  lists : ∀ given, s.registry.Lists given →
    out.registry.Lists (given ++ (Posting.done book).filterMap fun m => m.1.output)

omit [TimeScale T] [Spelled T] in
theorem Booked.append {s' : RunState T} {events more : List (Event T)}
    {book rest : List (Posting T)} (h : Booked s s' events book) (k : Booked s' out more rest) :
    Booked s out (events ++ more) (book ++ rest) where
  steps := by rw [k.steps, h.steps, Posting.done_append, List.length_append, Nat.add_assoc]
  skipped := by rw [k.skipped, h.skipped, Posting.skips_append, List.append_assoc]
  calls := by
    rw [callsOf_append, h.calls, k.calls, Posting.done_append, List.filter_append, List.map_append]
  completions := by
    rw [List.filterMap_append, h.completions, k.completions, Posting.done_append, List.map_append]
  lists given hgiven := by
    rw [Posting.done_append, List.filterMap_append, ← List.append_assoc]
    exact k.lists _ (h.lists given hgiven)

omit [TimeScale T] [Spelled T] in
/-- A task that was passed over is posted with the reason. -/
theorem Booked.passed {events : List (Event T)} {reason : String} (hsteps : out.steps = s.steps)
    (hskipped : out.skipped = s.skipped ++ [⟨position, t.op.typeName, reason⟩])
    (hcalls : callsOf events = []) (hcompletions : events.filterMap Event.completion? = [])
    (hnames : out.registry.names = s.registry.names)
    (hproduced : out.registry.produced = s.registry.produced) :
    Booked s out events [⟨t, position, some reason⟩] where
  steps := hsteps
  skipped := hskipped
  calls := hcalls
  completions := hcompletions
  lists given hgiven := by
    simpa [Posting.done] using hgiven.congr hnames hproduced

omit [TimeScale T] [Spelled T] in
/-- A task that was completed is posted without one. -/
theorem Booked.completed {events : List (Event T)} {r : Registry} {p : Path} {effect : ChainEffect}
    (hsteps : out.steps = s.steps + 1) (hskipped : out.skipped = s.skipped)
    (hcalls : callsOf events = if t.isFetch then [] else [position])
    (hcompletions : events.filterMap Event.completion? = [(position, t)])
    (hnames : r.names = s.registry.names) (hproduced : r.produced = s.registry.produced)
    (hregistry : out.registry = r.publish t.output p effect) :
    Booked s out events [⟨t, position, none⟩] where
  steps := hsteps
  skipped := hskipped.trans (List.append_nil _).symm
  calls := by
    rw [hcalls]
    cases hfetch : t.isFetch <;> simp [Posting.done, Posting.place, hfetch]
  completions := hcompletions
  lists given hgiven := by
    rw [hregistry]
    have hgives : (Posting.done [(⟨t, position, none⟩ : Posting T)]).filterMap
        (fun m => m.1.output) = t.output.toList := by
      cases houtput : t.output <;> simp [Posting.done, Posting.place, houtput]
    rw [hgives]
    exact (hgiven.congr hnames hproduced).publish t.output p effect

/-- How a task is accounted for: by a posting, or by its failure. -/
inductive Closes (t : Task T) (position : Nat) (s out : RunState T) (events : List (Event T)) :
    Except Failure Unit → Prop
  | posted (reason? : Option String) (h : Booked s out events [⟨t, position, reason?⟩]) :
      Closes t position s out events (.ok ())
  | failed {e : Failure} (hposition : e.position? = some position)
      (hcalls : callsOf events = [] ∨ e.isOfName = false ∧ callsOf events = [position]) :
      Closes t position s out events (.error e)

omit [TimeScale T] [Spelled T] in
/-- A task whose call is not counted has made none. -/
theorem callsOf_eq_nil {source : Path} {made : List (Made T)} {artifact? : Option Path}
    {outcome : Outcome} {events : List (Event T)}
    (h : Told source made position t artifact? s out outcome events)
    (hcalls : out.calls = s.calls) : callsOf events = [] := by
  have hcount := h.count
  rw [hcalls] at hcount
  have hnone : events.filterMap Event.call? = [] := List.length_eq_zero_iff.mp (by omega)
  rw [callsOf, hnone, List.map_nil]

theorem closes_runTask (su : Setup T) {source : Path} {made : List (Made T)}
    (h : Reflects source made s.registry) (total position : Nat) (t : Task T) :
    ∃ events, (su.runTask total position t s).1.trace = s.trace ++ events ∧
      Closes t position s (su.runTask total position t s).1 events
        (su.runTask total position t s).2 ∧
      ∃ made' : List (Made T),
        Reflects source made' (su.runTask total position t s).1.registry := by
  cases hkind : t.kind? with
  | none =>
    rw [runTask_of_unknown su hkind]
    exact ⟨_, rfl, .posted _ (.passed rfl rfl rfl rfl rfl rfl), made, h⟩
  | some k =>
    have hstarted : Reflects source made (s.note [.started position total t]).registry := h
    obtain ⟨events, htold⟩ := told_act su hstarted hkind position
    have hacted := acted_act su t k position (s.note [.started position total t])
    have hskipped :=
      (advances_act su hkind position (s.note [.started position total t])).1.skipped
    rw [runTask_of_kind su hkind]
    generalize su.act t k position (s.note [.started position total t]) = result at *
    obtain ⟨out, outcome⟩ := result
    have htrace : out.trace = s.trace ++ ([.started position total t] ++ events) := by
      rw [htold.trace, RunState.note, List.append_assoc]
    have hcallsOf (e : Event T) (he : e.call? = none) :
        callsOf ([.started position total t] ++ events ++ [e]) = callsOf events := by
      rw [callsOf_append, callsOf_append, callsOf_singleton he, callsOf_singleton rfl,
        List.nil_append, List.append_nil]
    have hcompletionsOf (e : Event T) :
        ([Event.started position total t] ++ events ++ [e]).filterMap Event.completion? =
          [e].filterMap Event.completion? := by
      rw [List.filterMap_append, List.filterMap_append, htold.completions]
      rfl
    have hsteps : out.steps = s.steps := htold.steps
    cases hacted with
    | @done _ p effect hnames hproduced hregistry =>
      obtain ⟨artifact, -, hreflects, hcall⟩ := htold.registry
      have hcalls : callsOf events = if t.isFetch then [] else [position] := by
        split_ifs with hfetch
        · obtain hnone | ⟨-, -, hno, -⟩ := htold.calls
          · rw [callsOf, hnone, List.map_nil]
          · exact absurd (hfetch.symm.trans hno) (by simp)
        · obtain ⟨i, hi, -⟩ := hcall (Bool.eq_false_iff.mpr hfetch)
          rw [callsOf, hi]
          rfl
      refine ⟨[.started position total t] ++ events ++ [.completed position total t], ?_,
        .posted none ?_, _, hreflects⟩
      · exact (congrArg (· ++ [_]) htrace).trans (List.append_assoc _ _ _)
      · exact .completed (congrArg (· + 1) hsteps) hskipped ((hcallsOf _ rfl).trans hcalls)
          (hcompletionsOf _) hnames hproduced hregistry
    | @skipped reason hnames hproduced hcalls =>
      have hcalls : callsOf events = [] := callsOf_eq_nil htold hcalls
      refine ⟨[.started position total t] ++ events ++ [.skipped ⟨position, t.op.typeName, reason⟩],
        ?_, .posted (some reason) ?_, made, htold.registry⟩
      · exact (congrArg (· ++ [_]) htrace).trans (List.append_assoc _ _ _)
      · exact .passed hsteps (congrArg (· ++ [_]) hskipped) ((hcallsOf _ rfl).trans hcalls)
          (hcompletionsOf _) hnames hproduced
    | @failed e hposition hcalls =>
      have hcallsOf : callsOf ([.started position total t] ++ events) = callsOf events := rfl
      refine ⟨_, htrace, .failed hposition ?_, made, htold.registry⟩
      rw [hcallsOf]
      cases hname : e.isOfName with
      | true => exact Or.inl (callsOf_eq_nil htold (hcalls hname))
      | false =>
        obtain hnone | ⟨i, hi, -⟩ := htold.calls
        · exact Or.inl (by rw [callsOf, hnone, List.map_nil])
        · exact Or.inr ⟨rfl, by rw [callsOf, hi]; rfl⟩

/-- How the tasks of a plan are accounted for that are run from a position on: by a book if all of
them were run, and by the calls up to the one that failed. -/
inductive Accounted (ts : Plan T) (position : Nat) (s out : RunState T) (events : List (Event T)) :
    Except Failure Unit → Prop
  | closed (book : List (Posting T)) (places : book.map Posting.place = ts.zipIdx position)
      (h : Booked s out events book) : Accounted ts position s out events (.ok ())
  | failed {e : Failure} (n : Nat) (earlier last : List Nat) (hn : n < ts.length)
      (hposition : e.position? = some (position + n)) (hcalls : callsOf events = earlier ++ last)
      (hearlier : ∀ c ∈ earlier, c < position + n)
      (hlast : last = [] ∨ e.isOfName = false ∧ last = [position + n]) :
      Accounted ts position s out events (.error e)

omit [TimeScale T] [Spelled T] in
/-- A task in front of others. -/
theorem Accounted.cons {ts : Plan T} {s' : RunState T} {events more : List (Event T)}
    {reason? : Option String} {answer : Except Failure Unit}
    (h : Booked s s' events [⟨t, position, reason?⟩])
    (k : Accounted ts (position + 1) s' out more answer) :
    Accounted (t :: ts) position s out (events ++ more) answer := by
  cases k with
  | closed book places hbook =>
    refine .closed (⟨t, position, reason?⟩ :: book) ?_ (h.append hbook)
    rw [List.map_cons, places, List.zipIdx_cons]
    rfl
  | failed n earlier last hn hposition hcalls hearlier hlast =>
    have hsum : position + 1 + n = position + (n + 1) := by omega
    rw [hsum] at hposition hearlier hlast
    refine .failed (n + 1) (callsOf events ++ earlier) last (Nat.succ_lt_succ hn) hposition ?_ ?_
      hlast
    · rw [callsOf_append, hcalls, List.append_assoc]
    · have hown : ∀ c ∈ callsOf events, c = position := by
        rw [h.calls]
        intro c hc
        obtain ⟨m, hm, rfl⟩ := List.mem_map.mp hc
        obtain ⟨e, he, rfl⟩ := List.mem_map.mp (List.mem_filter.mp hm).1
        obtain rfl := List.mem_singleton.mp (List.mem_filter.mp he).1
        rfl
      refine List.forall_mem_append.mpr ⟨fun c hc => ?_, hearlier⟩
      rw [hown c hc]
      omega

theorem accounted_runFrom (su : Setup T) {source : Path} {made : List (Made T)}
    (h : Reflects source made s.registry) (total position : Nat) (ts : Plan T) :
    ∃ events, (su.runFrom total position ts s).1.trace = s.trace ++ events ∧
      Accounted ts position s (su.runFrom total position ts s).1 events
        (su.runFrom total position ts s).2 := by
  induction ts generalizing position made s with
  | nil =>
    refine ⟨[], (List.append_nil _).symm, .closed [] rfl ⟨rfl, ?_, rfl, rfl, fun given => ?_⟩⟩
    · exact (List.append_nil _).symm
    · exact fun hgiven => (List.append_nil given).symm ▸ hgiven
  | cons t ts ih =>
    obtain ⟨events, htrace, hcloses, made', hnext⟩ := closes_runTask su h total position t
    rw [runFrom]
    generalize su.runTask total position t s = result at htrace hcloses hnext ⊢
    obtain ⟨s', answer⟩ := result
    cases hcloses with
    | posted reason? hbooked =>
      obtain ⟨more, htrace', haccounted⟩ := ih hnext (position + 1)
      refine ⟨events ++ more, ?_, .cons hbooked haccounted⟩
      rw [← List.append_assoc, ← htrace]
      exact htrace'
    | failed hposition hcalls =>
      refine ⟨events, htrace, .failed 0 [] (callsOf events) (Nat.zero_lt_succ _) hposition rfl
        (List.forall_mem_nil _) hcalls⟩

/-! ## Whole runs -/

section
variable {su : Setup T} {ts : Plan T} {source output : Path} {scratch : Scratch} {files : Files}

theorem accounted_reached {answer : Except Failure Unit} (hsource : files.isFile source = true)
    (hrun : su.runFrom ts.length 1 ts
      ((RunState.start source ts scratch files).note [.began ts.length source su.tool.name]) =
        (su.reached ts source scratch files, answer)) :
    ∃ events, callsOf (su.run ts source output scratch files).state.trace = callsOf events ∧
      (su.run ts source output scratch files).state.trace.filterMap Event.completion? =
        events.filterMap Event.completion? ∧
      Accounted ts 1 ((RunState.start source ts scratch files).note
        [.began ts.length source su.tool.name]) (su.reached ts source scratch files) events
        answer := by
  have hinitial : Reflects source ([] : List (Made T)) ((RunState.start source ts scratch
      files).note [.began ts.length source su.tool.name]).registry :=
    .initial source (ts.filterMap Task.output)
  obtain ⟨events, htrace, haccounted⟩ := accounted_runFrom su hinitial ts.length 1 ts
  rw [hrun] at htrace haccounted
  obtain ⟨quiet, hquiet, hwhole, -⟩ := trace_run su ts output scratch hsource
  have hbegan : ∀ e ∈ [Event.began (T := T) ts.length source su.tool.name], e.Quiet :=
    List.forall_mem_singleton.mpr ⟨rfl, rfl⟩
  have hall : (su.run ts source output scratch files).state.trace =
      [.began ts.length source su.tool.name] ++ events ++ quiet :=
    hwhole.trans (congrArg (· ++ quiet) htrace)
  refine ⟨events, ?_, ?_, haccounted⟩
  · rw [hall, callsOf, Event.filterMap_call?_between hbegan hquiet, callsOf]
  · rw [hall, List.filterMap_append, List.filterMap_append,
      Event.filterMap_completion?_of_quiet hbegan, Event.filterMap_completion?_of_quiet hquiet,
      List.nil_append, List.append_nil]

end

/-- A run that succeeds makes as many steps as there are tasks that it does not skip, skips in the
order of the plan, calls the media tool once for each task that is not skipped and no fetch, in the
order of the plan as well, and lists the names of the tasks that are not skipped, each where it is
first given. One that fails for a task has called nothing behind it, and at most once for it, and
not at all if it fails for a name. -/
theorem run_accounts (su : Setup T) (ts : Plan T) (source output : Path) (scratch : Scratch)
    (files : Files) :
    let last := su.run ts source output scratch files
    let calls := callsOf last.state.trace
    (∀ report, last.answer = .ok report →
      let done := ts.unskipped report.skipped
      report.steps + report.skipped.length = ts.length ∧
      (report.skipped.map Skipped.position).Pairwise (· < ·) ∧
      (∀ skip ∈ report.skipped, ∃ n t, skip.position = n + 1 ∧ ts[n]? = some t ∧
        skip.step = t.op.typeName) ∧
      last.state.trace.filterMap Event.completion? = done.map Prod.swap ∧
      calls = (done.filter fun m => !m.1.isFetch).map Prod.snd ∧
      report.produced.Nodup ∧
      report.produced = (done.filterMap fun m => m.1.output).eraseDups.filter (· ≠ sourceName)) ∧
    ∀ e position, last.answer = .error e → e.position? = some position →
      (∃ n t, position = n + 1 ∧ ts[n]? = some t) ∧
      (∀ c ∈ calls, c ≤ position) ∧ calls.count position ≤ 1 ∧
      (e.isOfName = true → position ∉ calls) := by
  intro last calls
  constructor
  · intro report hok done
    obtain ⟨hsource, hrun, out, hfinal⟩ := reached_of_run_ok hok
    obtain ⟨cleaned, hanswer, -⟩ := run_of_finalize hsource hrun hfinal
    obtain rfl := Except.ok.inj (hok.symm.trans hanswer)
    obtain ⟨events, hcalls, hcompletions, haccounted⟩ := accounted_reached hsource hrun
    cases haccounted with
    | closed book places h =>
      have hsteps : (su.reached ts source scratch files).steps = (Posting.done book).length :=
        h.steps.trans (Nat.zero_add _)
      have hskipped : (su.reached ts source scratch files).skipped = Posting.skips book := h.skipped
      have hdone : Posting.done book = done :=
        (Posting.done_eq_unskipped places).trans (congrArg ts.unskipped hskipped.symm)
      have hlists := h.lists [] (.initial source (ts.filterMap Task.output))
      have hlength : book.length = ts.length := by
        rw [← List.length_map Posting.place, places, List.length_zipIdx]
      refine ⟨?_, hskipped ▸ Posting.pairwise_skips places, fun skip hskip => ?_, ?_, ?_,
        hlists.nodup, hdone ▸ hlists.produced⟩
      · dsimp only
        rw [hsteps, hskipped, Posting.length_done_add, hlength]
      · obtain ⟨e, he, -, hposition, hstep⟩ := Posting.mem_skips (hskipped ▸ hskip)
        have hplace : e.place ∈ ts.zipIdx 1 := places ▸ List.mem_map_of_mem he
        obtain ⟨hle, hget⟩ := List.mk_mem_zipIdx_iff_le_and_getElem?_sub.mp hplace
        exact ⟨e.position - 1, e.task, by omega, hget, hstep⟩
      · rw [← hdone, ← h.completions]
        exact hcompletions
      · rw [← hdone, ← h.calls]
        exact hcalls
  · intro e position herror hposition
    obtain ⟨hsource, hrun⟩ := reached_of_run_error herror hposition
    obtain ⟨events, hcalls, -, haccounted⟩ := accounted_reached hsource hrun
    cases haccounted with
    | failed n earlier behind hn hfailed hall hearlier hlast =>
      obtain rfl : position = 1 + n := Option.some.inj (hposition.symm.trans hfailed)
      have hsplit : calls = earlier ++ behind := hcalls.trans hall
      have hnew : 1 + n ∉ earlier := fun hmem => Nat.lt_irrefl _ (hearlier _ hmem)
      refine ⟨⟨n, ts[n], Nat.add_comm 1 n, List.getElem?_eq_getElem hn⟩, ?_⟩
      rw [hsplit, List.count_append, List.count_eq_zero_of_not_mem hnew, Nat.zero_add]
      obtain rfl | ⟨hname, rfl⟩ := hlast
      · rw [List.append_nil]
        exact ⟨fun c hc => Nat.le_of_lt (hearlier c hc), Nat.zero_le 1, fun _ => hnew⟩
      · refine ⟨List.forall_mem_append.mpr ⟨fun c hc => Nat.le_of_lt (hearlier c hc), ?_⟩, ?_, ?_⟩
        · exact List.forall_mem_singleton.mpr (Nat.le_refl _)
        · simp
        · exact fun htrue => absurd (hname.symm.trans htrue) nofun

/-- A task of an unknown type, a picture, and a name that is given twice. -/
def repeatingPlan : Plan Float :=
  [⟨.unrecognized "sharpen" .null, some "z", []⟩,
    ⟨.fetchImage ⟨"logo", [], "landscape"⟩, some "x", []⟩,
    ⟨.concat ⟨[]⟩, some "y", [sourceName, "x"]⟩,
    ⟨.resize ⟨640, none⟩, some "y", []⟩,
    ⟨.resize ⟨320, none⟩, none, ["y"]⟩]

/-- The plan run on the desk. -/
def repeatingRun : Finished Float :=
  deskSetup.run repeatingPlan ⟨"/in.mp4"⟩ ⟨"/out.mp4"⟩ deskScratch desk

theorem run_accounts_desk :
    (∃ report, repeatingRun.answer = .ok report ∧
      (report.steps, report.skipped.map Skipped.position) = (4, [1]) ∧
      report.steps + report.skipped.length = repeatingPlan.length ∧
      callsOf repeatingRun.state.trace = [3, 4, 5] ∧ report.produced = ["x", "y"]) ∧
    strandedRun.answer = .error (.unresolved "resize" 3 "v" [sourceName]) ∧
    (∀ c ∈ callsOf strandedRun.state.trace, c ≤ 3) ∧ 3 ∉ callsOf strandedRun.state.trace := by
  have hreport : repeatingRun.answer.toOption.map
      (fun r => (r.steps, r.skipped.map Skipped.position)) = some (4, [1]) := by decide +kernel
  obtain ⟨report, hanswer, hvalues⟩ := Option.map_eq_some_iff.mp hreport
  have hok : repeatingRun.answer = .ok report := by
    cases hcases : repeatingRun.answer with
    | error e => simp [hcases, Except.toOption] at hanswer
    | ok report' => simpa [hcases, Except.toOption] using hanswer
  obtain ⟨hsum, -, -, -, hcalls, -, hproduced⟩ := (run_accounts deskSetup repeatingPlan ⟨"/in.mp4"⟩
    ⟨"/out.mp4"⟩ deskScratch desk).1 report hok
  have hdone : repeatingPlan.unskipped report.skipped =
      (repeatingPlan.zipIdx 1).filter fun m => !List.contains [1] m.2 := by
    rw [Plan.unskipped, (Prod.mk.inj hvalues).2]
  obtain ⟨-, hbehind, -, hname⟩ := (run_accounts { deskSetup with content := .nothing } strandedPlan
    ⟨"/in.mp4"⟩ ⟨"/out.mp4"⟩ deskScratch desk).2 _ 3 strandedRun_answer rfl
  refine ⟨⟨report, hok, hvalues, hsum, hcalls.trans ?_, hproduced.trans ?_⟩, strandedRun_answer,
    hbehind, hname rfl⟩
  · rw [hdone]
    decide
  · rw [hdone]
    decide

end Setup

end Montage
