import Montage.Proofs.Run.Progress

/-!
# Tasks that read too early

A forward or an unknown reference among the issues of a plan names a task that reads what no task
before it gives. However the media tool and the content source behave, the name stands for nothing
when a run comes to that task. Main statement: a transformation with such an issue is completed in
no run and never calls the media tool. A run that comes to it fails for a name, or passes it over
as an insertion for which nothing was found.
-/

namespace Montage

namespace Plan
variable {T : Type} {ts before rest : Plan T} {t : Task T} {e : Issue} {n : Nat}

/-- The issue of a task that reads a name which no task before it gives. -/
def IsEarly (n : Nat) (e : Issue) : Prop :=
  (∃ name declaredAt, e = .forwardReference n name declaredAt) ∨
    ∃ name, e = .unknownReference n name

theorem early_of_issueOfRead {name : String} (he : ts.issueOfRead before name = some e) :
    name ≠ sourceName ∧ name ∉ names before ∧ ∀ n, IsEarly n e → n = before.length := by
  unfold issueOfRead at he
  split_ifs at he with hknown
  simp only [Bool.or_eq_true, decide_eq_true_eq, not_or, isSome_declaredAt?] at hknown
  refine ⟨hknown.1, hknown.2, fun n hearly => ?_⟩
  split at he
  · obtain rfl := Option.some.inj he
    obtain ⟨_, _, heq⟩ | ⟨_, heq⟩ := hearly
    · exact (Issue.forwardReference.inj heq).1.symm
    · exact absurd heq nofun
  · obtain rfl := Option.some.inj he
    obtain ⟨_, _, heq⟩ | ⟨_, heq⟩ := hearly
    · exact absurd heq nofun
    · exact (Issue.unknownReference.inj heq).1.symm

theorem early_of_issuesOfTask (he : e ∈ ts.issuesOfTask before t) (hearly : IsEarly n e) :
    n = before.length ∧ ∃ name ∈ ts.reads t, name ≠ sourceName ∧ name ∉ names before := by
  unfold issuesOfTask at he
  rcases List.mem_append.mp he with hfront | hduplicate
  · rcases List.mem_append.mp hfront with htype | hread
    · split at htype
      · obtain rfl := List.mem_singleton.mp htype
        obtain ⟨_, _, heq⟩ | ⟨_, heq⟩ := hearly <;> exact absurd heq nofun
      · exact absurd htype List.not_mem_nil
    · obtain ⟨name, hname, hissue⟩ := List.mem_filterMap.mp hread
      obtain ⟨hsource, hbefore, hposition⟩ := early_of_issueOfRead hissue
      exact ⟨hposition n hearly, name, hname, hsource, hbefore⟩
  · split at hduplicate
    · split at hduplicate
      · obtain rfl := List.mem_singleton.mp hduplicate
        obtain ⟨_, _, heq⟩ | ⟨_, heq⟩ := hearly <;> exact absurd heq nofun
      · exact absurd hduplicate List.not_mem_nil
    · exact absurd hduplicate List.not_mem_nil

theorem early_of_issuesFrom (he : e ∈ ts.issuesFrom before rest) (hearly : IsEarly n e) :
    before.length ≤ n ∧ ∃ t, (before ++ rest)[n]? = some t ∧
      ∃ name ∈ ts.reads t, name ≠ sourceName ∧ name ∉ names ((before ++ rest).take n) := by
  induction rest generalizing before with
  | nil => exact absurd he List.not_mem_nil
  | cons t rest ih =>
    rw [issuesFrom] at he
    rcases List.mem_append.mp he with htask | hrest
    · obtain ⟨rfl, name, hname, hsource, hbefore⟩ := early_of_issuesOfTask htask hearly
      refine ⟨Nat.le_refl _, t, by simp, name, hname, hsource, ?_⟩
      rwa [List.take_left]
    · obtain ⟨hle, hread⟩ := ih hrest
      rw [List.length_append, List.length_singleton] at hle
      rw [List.append_assoc, List.singleton_append] at hread
      exact ⟨by omega, hread⟩

/-- The task of such an issue reads a name that is not given before it. -/
theorem early_of_issues (he : e ∈ ts.issues) (hearly : IsEarly n e) (ht : ts[n]? = some t) :
    ∃ name ∈ ts.reads t, name ≠ sourceName ∧ name ∉ names (ts.take n) := by
  obtain ⟨-, u, hu, hread⟩ := early_of_issuesFrom he hearly
  rw [List.nil_append] at hu hread
  obtain rfl : t = u := Option.some.inj (ht.symm.trans hu)
  exact hread

end Plan

namespace Setup
variable {T : Type} {r : Registry} {fs : Files} {position : Nat} {t : Task T} {e : Failure}

/-! ## Failures for a name -/

/-- A step at a position fails for a name that is blocked or stands for nothing. -/
def FailsForName (step : String) (position : Nat) (e : Failure) : Prop :=
  (∃ name, e = .blocked step position name) ∨
    ∃ name available, e = .unresolved step position name available

/-- A failure for a name tells at which position it happened. -/
theorem FailsForName.position_eq {step step' : String} {p : Nat} (h : FailsForName step position e)
    (h' : FailsForName step' p e) : position = p := by
  obtain ⟨_, rfl⟩ | ⟨_, _, rfl⟩ := h
  · obtain ⟨_, heq⟩ | ⟨_, _, heq⟩ := h'
    · exact (Failure.blocked.inj heq).2.1
    · exact absurd heq nofun
  · obtain ⟨_, heq⟩ | ⟨_, _, heq⟩ := h'
    · exact absurd heq nofun
    · exact (Failure.unresolved.inj heq).2.1

theorem failsForName_of_resolve {step name : String}
    (h : resolve r step position name = .error e) : FailsForName step position e := by
  unfold resolve at h
  split at h
  · exact absurd h nofun
  · split_ifs at h
    · exact .inl ⟨name, (Except.error.inj h).symm⟩
    · exact .inr ⟨name, r.available, (Except.error.inj h).symm⟩

theorem failsForName_of_inputsOf (h : inputsOf r fs position t = .error e) :
    FailsForName t.op.typeName position e := by
  unfold inputsOf at h
  split_ifs at h
  · split at h <;> exact absurd h nofun
  · obtain ⟨name, -, hname⟩ := exists_of_mapM_error h
    exact failsForName_of_resolve hname

theorem failsForName_of_attachmentOf (h : attachmentOf r fs position t = .error e) :
    FailsForName t.op.typeName position e := by
  unfold attachmentOf at h
  split at h
  · rename_i p _
    cases hclip : resolve r t.op.typeName position p.clip with
    | ok file =>
      rw [hclip] at h
      exact absurd h nofun
    | error e' =>
      rw [hclip] at h
      obtain rfl : e' = e := Except.error.inj h
      exact failsForName_of_resolve hclip
  · rename_i p _
    split at h
    · exact absurd h nofun
    · split_ifs at h
      exact .inr ⟨p.image, r.available, (Except.error.inj h).symm⟩
  · exact absurd h nofun

/-- A task that reads a name which stands for nothing is not given its files. -/
theorem exists_error_of_reads {ts : Plan T} (hdeclared : r.declared = Plan.names ts)
    {name : String} (hread : name ∈ ts.reads t) (hnone : r.resolve? name = none) :
    (∃ e, inputsOf r fs position t = .error e) ∨ ∃ e, attachmentOf r fs position t = .error e := by
  rcases Plan.mem_reads_iff.mp hread with hinput | ⟨p, hop, rfl⟩ | ⟨p, hop, rfl, hgiven⟩
  · left
    cases hinputs : inputsOf r fs position t with
    | error e => exact ⟨e, rfl⟩
    | ok ps =>
      have hnonempty : t.inputs.isEmpty ≠ true := fun hempty => by
        rw [List.isEmpty_iff.mp hempty] at hinput
        exact absurd hinput List.not_mem_nil
      unfold inputsOf at hinputs
      rw [if_neg hnonempty] at hinputs
      have hall := mapM_resolve_eq_ok hinputs
      have hmem : none ∈ ps.map some := by
        rw [hall]
        exact List.mem_map.mpr ⟨name, hinput, hnone⟩
      obtain ⟨q, -, hq⟩ := List.mem_map.mp hmem
      exact absurd hq nofun
  · right
    unfold attachmentOf resolve
    simp only [hop, hnone]
    split_ifs <;> exact ⟨_, rfl⟩
  · right
    have hisDeclared : r.isDeclared p.image = true := by
      unfold Registry.isDeclared
      rw [hdeclared]
      simpa using hgiven
    unfold attachmentOf
    simp only [hop, hnone, hisDeclared, if_true]
    exact ⟨_, rfl⟩

/-- What is passed over for a name that is blocked. -/
def missedSkip (position : Nat) (t : Task T) (name : String) : Skipped :=
  ⟨position, t.op.typeName, "'" ++ name ++ "' was never fetched"⟩

variable [TimeScale T] [Spelled T] {s : RunState T} {k : Kind}

/-- A transformation that reads a name which stands for nothing is passed over, or it fails for a
name. Nothing else happens. -/
theorem runTask_of_reads (su : Setup T) {ts : Plan T} (hkind : t.kind? = some k)
    (hfetch : k.isFetch = false) (hdeclared : s.registry.declared = Plan.names ts) {name : String}
    (hread : name ∈ ts.reads t) (hnone : s.registry.resolve? name = none) (total position : Nat) :
    (k.isOptionalInsert = true ∧ ∃ missed ∈ t.referencedNames,
      s.registry.isBlocked missed = true ∧ su.runTask total position t s =
        ({ s with skipped := s.skipped ++ [missedSkip position t missed] }.note
          [.started position total t, .skipped (missedSkip position t missed)], .ok ())) ∨
    ∃ e, FailsForName t.op.typeName position e ∧ su.runTask total position t s =
      (s.note (.started position total t :: (missingClips s.files t).map .missingClip),
        .error e) := by
  have hact : su.act t k position (s.note [.started position total t]) =
      su.transform t k position (s.note [.started position total t]) := if_neg (by simp [hfetch])
  have hungiven (step : StepFiles) :
      ¬ Given t k position (s.note [.started position total t]) step := by
    intro hgiven
    obtain ⟨e, hinputs⟩ | ⟨e, hattachment⟩ := exists_error_of_reads hdeclared hread hnone
    · exact absurd (hgiven.inputs.symm.trans hinputs) nofun
    · exact absurd (hgiven.attachment.symm.trans hattachment) nofun
  rw [runTask_of_kind su hkind, hact]
  have htransformed := transformed su t k position (s.note [.started position total t])
  generalize su.transform t k position (s.note [.started position total t]) = result
    at htransformed ⊢
  obtain ⟨out, outcome⟩ := result
  cases htransformed with
  | @missed missed hmissed =>
    left
    unfold missedInsert? at hmissed
    split_ifs at hmissed with hinsert
    refine ⟨by simpa [hkind] using hinsert, missed, List.mem_of_find?_eq_some hmissed, ?_, ?_⟩
    · exact List.find?_some hmissed
    · simp [RunState.note, missedSkip]
  | @lacking e _ hlacks =>
    right
    refine ⟨e, hlacks.elim failsForName_of_inputsOf failsForName_of_attachmentOf, ?_⟩
    simp [RunState.note]
  | pointless hgiven _ => exact absurd hgiven (hungiven _)
  | refused hgiven _ => exact absurd hgiven (hungiven _)
  | unwritten hgiven _ _ => exact absurd hgiven (hungiven _)
  | failed hgiven _ _ _ => exact absurd hgiven (hungiven _)
  | done hgiven _ _ _ => exact absurd hgiven (hungiven _)

/-- So it adds neither a call nor a completed task to the trace. -/
theorem quiet_of_reads (su : Setup T) {ts : Plan T} (hkind : t.kind? = some k)
    (hfetch : k.isFetch = false) (hdeclared : s.registry.declared = Plan.names ts) {name : String}
    (hread : name ∈ ts.reads t) (hnone : s.registry.resolve? name = none) (total position : Nat) :
    ∀ event ∈ su.eventsOf total position t s, event.Quiet := by
  unfold eventsOf
  obtain ⟨-, missed, -, -, hrun⟩ | ⟨e, -, hrun⟩ :=
    runTask_of_reads su hkind hfetch hdeclared hread hnone total position
  · rw [hrun, RunState.note, List.drop_left]
    exact List.forall_mem_cons.mpr ⟨⟨rfl, rfl⟩, List.forall_mem_singleton.mpr ⟨rfl, rfl⟩⟩
  · rw [hrun, RunState.note, List.drop_left]
    exact List.forall_mem_cons.mpr ⟨⟨rfl, rfl⟩, Event.quiet_map (fun _ => ⟨rfl, rfl⟩) _⟩

section
variable {su : Setup T} {ts : Plan T} {source output : Path} {scratch : Scratch} {files : Files}
  {n : Nat}

/-- The names of the first tasks are accounted for once these are run. -/
theorem accounts_upTo (hn : n ≤ ts.length)
    (hs : su.upTo ts source scratch files n = (s, .ok ())) : Accounts ts (ts.take n) s := by
  refine upTo_induction (P := fun n s => Accounts ts (ts.take n) s)
    ((Accounts.initial source ts scratch files).note _) ?_ hn hs
  intro m u s' out hu _ hbefore hrun
  have hm : m < ts.length := (List.getElem?_eq_some_iff.mp hu).choose
  have htask := accounts_runTask su ts.length u hbefore
  rw [List.length_take_of_le (Nat.le_of_lt hm), hrun] at htask
  rwa [List.take_add_one, hu, Option.toList_some]

/-- A name that no task before gives stands for nothing. -/
theorem resolve?_upTo_eq_none {name : String} (hname : name ≠ sourceName)
    (hbefore : name ∉ Plan.names (ts.take n))
    (hs : su.upTo ts source scratch files n = (s, .ok ())) : s.registry.resolve? name = none := by
  obtain ⟨hreflects, hmade⟩ := reflects_upTo su ts source scratch files n
  rw [hs] at hreflects
  rw [hreflects.named]
  exact Made.named_eq_none hname fun m hm hgives =>
    hbefore (Plan.mem_names.mpr ⟨m.task, (hmade m hm).2, hgives⟩)

/-- A transformation that reads a name too early is completed in no run and calls no media tool. A
run that comes to it fails for a name, or passes it over as an insertion of which a name is blocked.
-/
theorem early_never_completed (su : Setup T) {e : Issue} (he : e ∈ ts.issues)
    (hearly : Plan.IsEarly n e) {t : Task T} {k : Kind} (ht : ts[n]? = some t)
    (hkind : t.kind? = some k) (hfetch : k.isFetch = false) (source output : Path)
    (scratch : Scratch) (files : Files) :
    let last := su.run ts source output scratch files
    (∀ total u, .completed (n + 1) total u ∉ last.state.trace) ∧
    (∀ i fs, .invoked (n + 1) i fs ∉ last.state.trace) ∧
    ∀ total u, .started (n + 1) total u ∈ last.state.trace →
      ∃ s, su.upTo ts source scratch files n = (s, .ok ()) ∧
        ((∃ e, FailsForName t.op.typeName (n + 1) e ∧ last.answer = .error e) ∨
          k.isOptionalInsert = true ∧ ∃ missed ∈ t.referencedNames,
            s.registry.isBlocked missed = true ∧
            missedSkip (n + 1) t missed ∈ last.state.skipped) := by
  intro last
  have hn : n < ts.length := (List.getElem?_eq_some_iff.mp ht).choose
  obtain ⟨name, hread, hname, hbefore⟩ := Plan.early_of_issues he hearly ht
  have hnone {s : RunState T} (hs : su.upTo ts source scratch files n = (s, .ok ())) :
      s.registry.declared = Plan.names ts ∧ s.registry.resolve? name = none :=
    ⟨(accounts_upTo (Nat.le_of_lt hn) hs).declared, resolve?_upTo_eq_none hname hbefore hs⟩
  have hquiet {event : Event T} (hevent : event ∈ last.state.trace)
      (hposition : event.position? = some (n + 1)) : event.Quiet := by
    obtain ⟨s, hs, hmem⟩ := state_of_mem_trace ht hevent hposition
    exact quiet_of_reads su hkind hfetch (hnone hs).1 hread (hnone hs).2 _ _ event hmem
  refine ⟨fun total u hevent => ?_, fun i fs hevent => ?_, fun total u hevent => ?_⟩
  · exact absurd (hquiet hevent rfl).2 nofun
  · exact absurd (hquiet hevent rfl).1 nofun
  · obtain ⟨s, hs, -⟩ := state_of_mem_trace ht hevent rfl
    have hsource := isFile_of_mem_trace hevent
    have hnext := upTo_succ_of_ok ht hs
    refine ⟨s, hs, ?_⟩
    obtain ⟨hinsert, missed, hmissed, hblocked, hrun⟩ | ⟨e, hfails, hrun⟩ :=
      runTask_of_reads su hkind hfetch (hnone hs).1 hread (hnone hs).2 ts.length (n + 1)
    · right
      refine ⟨hinsert, missed, hmissed, hblocked, skipped_subset_run hsource output (n + 1) ?_⟩
      rw [hnext, hrun]
      exact List.mem_append_right _ (List.mem_singleton_self _)
    · exact .inl ⟨e, hfails, run_of_upTo_error hsource output (hnext.trans hrun)⟩

end

/-- A clip that is not found is laid over what a later task makes, and this is joined with what no
task makes. -/
def earlyPlan : Plan Float :=
  [⟨.fetchVideo ⟨"ocean", [], 5, "landscape"⟩, some "b", []⟩,
    ⟨.overlayVideo ⟨0, none, "b"⟩, none, ["late"]⟩,
    ⟨.resize ⟨640, none⟩, some "late", []⟩,
    ⟨.concat ⟨[]⟩, none, ["late", "never"]⟩]

/-- The overlay is passed over, and the run fails at the joining. -/
theorem earlyPlan_never_completed :
    let last := deskSetup.run earlyPlan ⟨"/in.mp4"⟩ ⟨"/out.mp4"⟩ deskScratch desk
    (∃ missed, missedSkip 2 (⟨.overlayVideo ⟨0, none, "b"⟩, none, ["late"]⟩ : Task Float) missed ∈
        last.state.skipped) ∧
      ∃ e, FailsForName "concat" 4 e ∧ last.answer = .error e := by
  intro last
  have hstarted (position : Nat) (h : (last.state.trace.any fun
      | .started p _ _ => p == position
      | _ => false) = true) : ∃ total u, .started position total u ∈ last.state.trace := by
    obtain ⟨event, hevent, hposition⟩ := List.any_eq_true.mp h
    cases event with
    | started p total u => exact ⟨total, u, eq_of_beq hposition ▸ hevent⟩
    | _ => exact absurd hposition nofun
  have hnever : .unknownReference 3 "never" ∈ earlyPlan.issues := by decide +kernel
  have hlate : .forwardReference 1 "late" 2 ∈ earlyPlan.issues := by decide +kernel
  have hjoining : ∃ e, FailsForName "concat" 4 e ∧ last.answer = .error e := by
    obtain ⟨total, u, hevent⟩ := hstarted 4 (by decide +kernel)
    obtain ⟨s, -, hfails | ⟨hinsert, -⟩⟩ :=
      (early_never_completed deskSetup hnever (.inr ⟨"never", rfl⟩) rfl rfl rfl ⟨"/in.mp4"⟩
        ⟨"/out.mp4"⟩ deskScratch desk).2.2 total u hevent
    · exact hfails
    · exact absurd hinsert nofun
  refine ⟨?_, hjoining⟩
  obtain ⟨total, u, hevent⟩ := hstarted 2 (by decide +kernel)
  obtain ⟨s, -, ⟨e, hname, hanswer⟩ | ⟨-, missed, -, -, hskipped⟩⟩ :=
    (early_never_completed deskSetup hlate (.inl ⟨"late", 2, rfl⟩) rfl rfl rfl ⟨"/in.mp4"⟩
      ⟨"/out.mp4"⟩ deskScratch desk).2.2 total u hevent
  · obtain ⟨e', hname', hanswer'⟩ := hjoining
    obtain rfl : e = e' := Except.error.inj (hanswer.symm.trans hanswer')
    exact absurd (hname.position_eq hname') nofun
  · exact ⟨missed, hskipped⟩

end Setup

end Montage
