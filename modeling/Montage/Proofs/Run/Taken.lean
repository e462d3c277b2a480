import Montage.Proofs.Run.Progress
import Montage.Proofs.Scratch.Issued

/-!
# What a transformation writes to

A transformation takes a path to write to from the scratch directory, and one more if the media
tool needs a sidecar. It tracks both, gives names to no other, and writes to no other, whatever the
media tool answers.
-/

namespace Montage

namespace Registry
variable {r : Registry} {p x : Path}

/-- A name stands for the file, or it is current, or it has to be removed. -/
def Refers (r : Registry) (x : Path) : Prop :=
  (∃ name, r.resolve? name = some x) ∨ r.current = x ∨ ∃ u ∈ r.transients, u.path = x

theorem refers_track (h : (r.track p).Refers x) : r.Refers x ∨ x = p := by
  obtain ⟨name, hname⟩ | hcurrent | ⟨u, hu, rfl⟩ := h
  · rw [resolve?, track_names] at hname
    exact .inl (.inl ⟨name, hname⟩)
  · rw [track_current] at hcurrent
    exact .inl (.inr (.inl hcurrent))
  · rcases mem_track hu with hold | rfl
    · exact .inl (.inr (.inr ⟨u, hold, rfl⟩))
    · exact .inr rfl

theorem refers_foldl_track {ps : List Path} (h : (ps.foldl track r).Refers x) :
    r.Refers x ∨ x ∈ ps := by
  induction ps generalizing r with
  | nil => exact .inl h
  | cons p ps ih =>
    rcases ih h with hbefore | hrest
    · rcases refers_track hbefore with hold | rfl
      · exact .inl hold
      · exact .inr List.mem_cons_self
    · exact .inr (List.mem_cons_of_mem p hrest)

theorem refers_block {name : String} (h : (r.block name).Refers x) : r.Refers x := by
  unfold Refers resolve? at h ⊢
  rwa [block_names, block_current, block_transients] at h

theorem refers_publish {name? : Option String} {effect : ChainEffect}
    (h : (r.publish name? p effect).Refers x) : r.Refers x ∨ x = p := by
  obtain ⟨name, hname⟩ | hcurrent | ⟨u, hu, rfl⟩ := h
  · cases name? with
    | none => cases effect <;> exact .inl (.inl ⟨name, hname⟩)
    | some given =>
      have hlookup : ((given, p) :: r.names).lookup name = some x := by
        cases effect <;> exact hname
      rw [List.lookup_cons] at hlookup
      split at hlookup
      · exact .inr (Option.some.inj hlookup).symm
      · exact .inl (.inl ⟨name, hlookup⟩)
  · cases effect with
    | mainChain =>
      rw [publish_mainChain_current] at hcurrent
      exact .inr hcurrent.symm
    | sideArtifact =>
      rw [publish_sideArtifact_current] at hcurrent
      exact .inl (.inr (.inl hcurrent))
  · rw [publish_transients] at hu
    exact .inl (.inr (.inr ⟨u, hu, rfl⟩))

/-- Files that are written like no tracked one, and not like each other, are all tracked anew. -/
theorem transients_foldl_track {ps : List Path}
    (hnew : ∀ p ∈ ps, ∀ u ∈ r.transients, p.same u.path = false)
    (hpairwise : ps.Pairwise fun p p' => p'.same p = false) :
    (ps.foldl track r).transients = r.transients ++ ps.map (⟨·, .produced⟩) := by
  induction ps generalizing r with
  | nil => exact (List.append_nil _).symm
  | cons p ps ih =>
    obtain ⟨hfirst, hrest⟩ := List.pairwise_cons.mp hpairwise
    have htrack : (r.track p).transients = r.transients ++ [⟨p, .produced⟩] := by
      have hnone : (r.transients.any fun u => u.path.same p) ≠ true := by
        rw [ne_eq, Bool.not_eq_true, List.any_eq_false]
        intro u hu hsame
        have hno := hnew p List.mem_cons_self u hu
        rw [Path.same, Bool.beq_comm] at hno
        exact absurd hsame (by simp [Path.same, hno])
      unfold track
      rw [if_neg hnone]
    rw [List.foldl_cons, ih, htrack, List.map_cons, List.append_assoc, List.singleton_append]
    · rw [htrack]
      intro p' hp' u hu
      rcases List.mem_append.mp hu with hold | hlast
      · exact hnew p' (List.mem_cons_of_mem p hp') u hold
      · rw [List.mem_singleton.mp hlast]
        exact hfirst p' hp'
    · exact hrest

end Registry

/-- The paths that a recipe takes for sidecars. -/
def Recipe.sidecars : Recipe → List Path
  | .call _ (some sidecar) => [sidecar.path]
  | _ => []

/-- The place that an event writes to, with the position of its task. -/
def Event.target? {T : Type} : Event T → Option (Nat × Path)
  | wrote position p => some (position, p)
  | invoked position i _ => some (position, i.output)
  | _ => none

namespace Setup
variable {T : Type}

/-! ## What a transformation does -/

section
variable {su : Setup T} {t : Task T} {k : Kind} {position : Nat} {s : RunState T}

/-- An event of a transformation, or one that belongs to no task: what is written to is one of the
paths that are taken, and a call reads what the step is given, with the files as they were but for
these paths. -/
def Keeps (t : Task T) (k : Kind) (position : Nat) (s : RunState T) (fresh : List Path) :
    Event T → Prop
  | .wrote p q => p = position ∧ q ∈ fresh
  | .invoked p i fs => p = position ∧ fresh.head? = some i.output ∧ s.files.SameTree fs ∧
      ∃ step, Given t k position s step ∧ t.op.Uses step i.inputs
  | _ => True

theorem Keeps.target_mem {fresh : List Path} {event : Event T}
    (h : Keeps t k position s fresh event) {q : Nat} {p : Path}
    (htarget : event.target? = some (q, p)) : p ∈ fresh := by
  cases event with
  | wrote q' p' =>
    obtain ⟨rfl, rfl⟩ := Prod.mk.inj (Option.some.inj htarget)
    exact h.2
  | invoked q' i fs =>
    obtain ⟨rfl, rfl⟩ := Prod.mk.inj (Option.some.inj htarget)
    exact List.mem_of_head? h.2.1
  | _ => exact absurd htarget nofun

/-- What a transformation does to a run, given the paths that it takes. -/
structure Works (su : Setup T) (t : Task T) (k : Kind) (position : Nat) (s : RunState T)
    (fresh : List Path) (out : RunState T) : Prop where
  scratch : out.scratch = { s.scratch with issued := s.scratch.issued + fresh.length }
  transients : out.registry.transients = (fresh.foldl Registry.track s.registry).transients
  refers : ∀ x, out.registry.Refers x → s.registry.Refers x ∨ x ∈ fresh
  here : (∀ n i fs, (su.tool.run n i fs).files.here = fs.here) → out.files.here = s.files.here
  /-- A sidecar is written at most, and then the output. -/
  files : su.tool.WritesOutput → ∃ mid, (mid = s.files ∨ ∃ p ∈ fresh, s.files.Touches mid p) ∧
    (out.files = mid ∨ ∃ p ∈ fresh, mid.Touches out.files p)
  events : ∃ events, out.trace = s.trace ++ events ∧
    ∀ event ∈ events, Keeps t k position s fresh event

theorem works_quiet {fresh : List Path} {out : RunState T}
    (hscratch : out.scratch = { s.scratch with issued := s.scratch.issued + fresh.length })
    (hregistry : out.registry = fresh.foldl Registry.track s.registry)
    (hfiles : out.files = s.files) {A : Type} {f : A → Event T} {as : List A}
    (hf : ∀ a, Keeps t k position s fresh (f a)) (htrace : out.trace = s.trace ++ as.map f) :
    Works su t k position s fresh out where
  scratch := hscratch
  transients := hregistry ▸ rfl
  refers x hx := Registry.refers_foldl_track (hregistry ▸ hx)
  here _ := hfiles ▸ rfl
  files _ := ⟨s.files, .inl rfl, .inl hfiles⟩
  events := by
    refine ⟨_, htrace, fun event hevent => ?_⟩
    obtain ⟨a, -, rfl⟩ := List.mem_map.mp hevent
    exact hf a

namespace Works
variable {fresh : List Path} {out : RunState T} {events : List (Event T)}

theorem publish (h : Works su t k position s fresh out) {p : Path} (hp : p ∈ fresh)
    (name? : Option String) (effect : ChainEffect) :
    Works su t k position s fresh (out.publish name? p effect) where
  scratch := h.scratch
  transients := (Registry.publish_transients out.registry name? p effect).trans h.transients
  refers x hx := by
    rcases Registry.refers_publish hx with hbefore | rfl
    · exact h.refers x hbefore
    · exact .inr hp
  here := h.here
  files := h.files
  events := h.events

theorem of_note (h : Works su t k position (s.note events) fresh out)
    (hevents : ∀ event ∈ events, Keeps t k position s fresh event) :
    Works su t k position s fresh out where
  scratch := h.scratch
  transients := h.transients
  refers := h.refers
  here := h.here
  files := h.files
  events := by
    obtain ⟨more, htrace, hmore⟩ := h.events
    refine ⟨events ++ more, by rw [htrace, RunState.note, List.append_assoc],
      List.forall_mem_append.mpr ⟨hevents, fun event hevent => ?_⟩⟩
    have hkeeps := hmore event hevent
    cases event with
    | invoked p i fs =>
      obtain ⟨hp, hhead, htree, step, hgiven, huses⟩ := hkeeps
      exact ⟨hp, hhead, htree, step,
        ⟨hgiven.unmissed, hgiven.inputs, hgiven.attachment, hgiven.output⟩, huses⟩
    | _ => exact hkeeps

theorem note (h : Works su t k position s fresh out)
    (hevents : ∀ event ∈ events, Keeps t k position s fresh event) :
    Works su t k position s fresh (out.note events) where
  scratch := h.scratch
  transients := h.transients
  refers := h.refers
  here := h.here
  files := h.files
  events := by
    obtain ⟨before, htrace, hbefore⟩ := h.events
    exact ⟨before ++ events, by rw [RunState.note, htrace, List.append_assoc],
      List.forall_mem_append.mpr ⟨hbefore, hevents⟩⟩

end Works

end

variable [TimeScale T] [Spelled T]

/-- The paths that a task takes as a transformation: one to write to, and one for a sidecar. -/
def takes (su : Setup T) (position : Nat) (t : Task T) (s : RunState T) : List Path :=
  match t.kind?, missedInsert? s.registry t, inputsOf s.registry s.files position t,
      attachmentOf s.registry s.files position t with
  | some k, none, .ok inputs, .ok attachment =>
    if k.isFetch then [] else
      let output := s.scratch.next k.wireName "mp4"
      output ::
        (t.op.recipe ⟨inputs, attachment, output⟩ su.font s.scratch.advance s.files).sidecars
  | _, _, _, _ => []

section
variable {su : Setup T} {t : Task T} {k : Kind} {position : Nat} {s ready : RunState T}
  {step : StepFiles} {i : Invocation} {sidecar? : Option Sidecar}

theorem takes_of_unknown (h : t.kind? = none) : su.takes position t s = [] := by
  unfold takes
  rw [h]

theorem takes_of_missed {name : String} (h : missedInsert? s.registry t = some name) :
    su.takes position t s = [] := by
  unfold takes
  rw [h]
  split
  · rename_i hnone _ _
    exact absurd hnone nofun
  · rfl

theorem takes_of_lacking {e : Failure}
    (h : inputsOf s.registry s.files position t = .error e ∨
      attachmentOf s.registry s.files position t = .error e) : su.takes position t s = [] := by
  unfold takes
  obtain h | h := h
  · rw [h]
    split
    · rename_i hok _
      exact absurd hok nofun
    · rfl
  · rw [h]
    split
    · rename_i hok
      exact absurd hok nofun
    · rfl

theorem takes_of_given (hkind : t.kind? = some k) (hfetch : k.isFetch = false)
    (h : Given t k position s step) : su.takes position t s =
      step.output :: (t.op.recipe step su.font s.scratch.advance s.files).sidecars := by
  unfold takes
  rw [hkind, h.unmissed, h.inputs, h.attachment]
  simp only [hfetch, Bool.false_eq_true, if_false, ← h.output]

/-- Once the sidecar is written, if there is one, all paths are taken, and no more than one of them
is written to. -/
theorem ready_of_given (hkind : t.kind? = some k) (hfetch : k.isFetch = false)
    (h : Given t k position s step)
    (hrecipe : t.op.recipe step su.font s.scratch.advance s.files = .call i sidecar?)
    (hready : writeSidecar position sidecar? (prepared t step s) = (ready, .ok ())) :
    ready.registry = (su.takes position t s).foldl Registry.track s.registry ∧
      ready.scratch =
        { s.scratch with issued := s.scratch.issued + (su.takes position t s).length } ∧
      (∃ p ∈ su.takes position t s, s.files.Touches ready.files p) ∧
      ready.trace = s.trace ++ (missingClips s.files t).map .missingClip ++
        (t.op.recipe step su.font s.scratch.advance s.files).sidecars.map (.wrote position) := by
  rw [takes_of_given hkind hfetch h, hrecipe]
  obtain ⟨rfl, rfl⟩ | ⟨sidecar, files, rfl, hwrite, rfl⟩ := writeSidecar_ok hready
  · exact ⟨rfl, rfl, ⟨step.output, List.mem_cons_self, .refl _ _⟩, (List.append_nil _).symm⟩
  · exact ⟨rfl, rfl, ⟨sidecar.path, List.mem_cons_of_mem _ List.mem_cons_self,
      Files.touches_of_write hwrite⟩, rfl⟩

/-- What a task takes are the next paths, asked for with plain parts. -/
theorem takes_cases (su : Setup T) (position : Nat) (t : Task T) (s : RunState T) :
    su.takes position t s = [] ∨ ∃ k : Kind,
      su.takes position t s = [s.scratch.next k.wireName "mp4"] ∨
        ∃ stem extension, Scratch.Plain stem ∧ Scratch.Plain extension ∧
          su.takes position t s =
            [s.scratch.next k.wireName "mp4", s.scratch.advance.next stem extension] := by
  unfold takes
  split
  · rename_i k inputs attachment _ _ _ _
    split_ifs
    · exact .inl rfl
    · refine .inr ⟨k, ?_⟩
      dsimp only
      cases hrecipe : t.op.recipe ⟨inputs, attachment, s.scratch.next k.wireName "mp4"⟩ su.font
          s.scratch.advance s.files with
      | skip reason => exact .inl rfl
      | refuse e => exact .inl rfl
      | call i sidecar? =>
        cases sidecar? with
        | none => exact .inl rfl
        | some sidecar =>
          have hsidecar := (Operation.calls_of_recipe hrecipe).sidecar
          obtain hpath | hpath := Operation.path_of_sidecar? hsidecar.symm
          · exact .inr ⟨"subtitles", "srt", by decide, by decide, by rw [← hpath]; rfl⟩
          · exact .inr ⟨"concat", "txt", by decide, by decide, by rw [← hpath]; rfl⟩
  · exact .inl rfl

theorem plain_wireName (k : Kind) : Scratch.Plain k.wireName := by
  cases k <;> decide

theorem mem_takes {p : Path} (hp : p ∈ su.takes position t s) :
    ∃ n stem extension, s.scratch.issued ≤ n ∧
      n < s.scratch.issued + (su.takes position t s).length ∧ Scratch.Plain stem ∧
      Scratch.Plain extension ∧ p = s.scratch.pathAt n stem extension := by
  obtain hnone | ⟨k, hone | ⟨stem, extension, hstem, hextension, htwo⟩⟩ :=
    takes_cases su position t s
  · rw [hnone] at hp
    exact absurd hp List.not_mem_nil
  · rw [hone] at hp ⊢
    rw [List.mem_singleton.mp hp]
    exact ⟨_, _, _, Nat.le_refl _, Nat.lt_succ_self _, plain_wireName k, by decide, rfl⟩
  · rw [htwo] at hp ⊢
    rcases List.mem_cons.mp hp with rfl | hp
    · exact ⟨_, _, _, Nat.le_refl _, by simp, plain_wireName k, by decide, rfl⟩
    · rw [List.mem_singleton.mp hp]
      exact ⟨_, _, _, Nat.le_succ _, by simp [Scratch.advance], hstem, hextension, rfl⟩

theorem works_invoke (hkind : t.kind? = some k) (hfetch : k.isFetch = false)
    (h : Given t k position s step)
    (hrecipe : t.op.recipe step su.font s.scratch.advance s.files = .call i sidecar?)
    (hready : writeSidecar position sidecar? (prepared t step s) = (ready, .ok ())) :
    Works su t k position s (su.takes position t s) (su.invoke position i ready).1 := by
  obtain ⟨hregistry, hscratch, ⟨p, hp, htouch⟩, htrace⟩ :=
    ready_of_given hkind hfetch h hrecipe hready
  have hcalls := Operation.calls_of_recipe hrecipe
  have htakes : su.takes position t s = _ := takes_of_given hkind hfetch h
  have hhead : (su.takes position t s).head? = some i.output := by
    rw [htakes, List.head?_cons, hcalls.output]
  rw [invoke_fst]
  refine ⟨hscratch, by rw [hregistry], fun x hx => ?_, fun hstays => ?_, fun hwrites => ?_, ?_⟩
  · exact Registry.refers_foldl_track (hregistry ▸ hx)
  · exact (hstays _ _ _).trans htouch.here
  · exact ⟨ready.files, .inr ⟨p, hp, htouch⟩,
      .inr ⟨i.output, List.mem_of_head? hhead, hwrites ready.calls i ready.files⟩⟩
  · have htrace' : ready.trace ++ su.callEvents position i ready = s.trace ++
        ((missingClips s.files t).map .missingClip ++
          ((t.op.recipe step su.font s.scratch.advance s.files).sidecars.map (.wrote position) ++
            su.callEvents position i ready)) := by
      rw [htrace, List.append_assoc, List.append_assoc]
    refine ⟨_, htrace', List.forall_mem_append.mpr ⟨?_, List.forall_mem_append.mpr ⟨?_, ?_⟩⟩⟩
    · intro event hevent
      obtain ⟨clip, -, rfl⟩ := List.mem_map.mp hevent
      exact trivial
    · intro event hevent
      obtain ⟨q, hq, rfl⟩ := List.mem_map.mp hevent
      exact ⟨rfl, htakes ▸ List.mem_cons_of_mem _ hq⟩
    · refine List.forall_mem_cons.mpr ⟨⟨rfl, hhead, htouch.sameTree, step, h, hcalls.inputs⟩, ?_⟩
      intro event hevent
      obtain ⟨line, -, rfl⟩ := List.mem_map.mp hevent
      exact trivial

theorem works_transform (su : Setup T) (hkind : t.kind? = some k) (hfetch : k.isFetch = false)
    (position : Nat) (s : RunState T) :
    Works su t k position s (su.takes position t s) (su.transform t k position s).1 := by
  have hcases := transformed su t k position s
  generalize (su.transform t k position s).1 = out at hcases ⊢
  generalize (su.transform t k position s).2 = outcome at hcases
  have hclips (fresh : List Path) (p : Path) :
      Keeps t k position s fresh (.missingClip p) := trivial
  cases hcases with
  | missed h =>
    rw [takes_of_missed h]
    have htrace : s.trace = s.trace ++ ([] : List Path).map .missingClip := (List.append_nil _).symm
    exact works_quiet rfl rfl rfl (hclips []) htrace
  | lacking hmissed h =>
    rw [takes_of_lacking h]
    exact works_quiet rfl rfl rfl (hclips []) rfl
  | pointless h hrecipe =>
    rw [takes_of_given hkind hfetch h, hrecipe]
    exact works_quiet rfl rfl rfl (hclips _) rfl
  | refused h hrecipe =>
    rw [takes_of_given hkind hfetch h, hrecipe]
    exact works_quiet rfl rfl rfl (hclips _) rfl
  | unwritten h hrecipe hwrite =>
    rw [takes_of_given hkind hfetch h, hrecipe]
    exact works_quiet rfl rfl rfl (hclips _) rfl
  | failed h hrecipe hready hcall => exact works_invoke hkind hfetch h hrecipe hready
  | done h hrecipe hready hcall =>
    refine (works_invoke hkind hfetch h hrecipe hready).publish ?_ t.output .mainChain
    rw [takes_of_given hkind hfetch h]
    exact List.mem_cons_self

theorem works_runTask (su : Setup T) (hkind : t.kind? = some k) (hfetch : k.isFetch = false)
    (total position : Nat) (s : RunState T) :
    Works su t k position s (su.takes position t s) (su.runTask total position t s).1 := by
  have hact : Works su t k position s (su.takes position t s)
      (su.act t k position (s.note [.started position total t])).1 := by
    unfold act
    rw [if_neg (by simp [hfetch])]
    exact (works_transform su hkind hfetch position (s.note [.started position total t])).of_note
      (List.forall_mem_singleton.mpr trivial)
  rw [runTask_of_kind su hkind]
  split
  · rename_i out hout
    rw [hout] at hact
    have hnoted : Works su t k position s _ (out.note [.completed position total t]) :=
      hact.note (List.forall_mem_singleton.mpr trivial)
    exact ⟨hnoted.scratch, hnoted.transients, hnoted.refers, hnoted.here, hnoted.files,
      hnoted.events⟩
  · rename_i out reason hout
    rw [hout] at hact
    have hnoted : Works su t k position s _
        (out.note [.skipped ⟨position, t.op.typeName, reason⟩]) :=
      hact.note (List.forall_mem_singleton.mpr trivial)
    exact ⟨hnoted.scratch, hnoted.transients, hnoted.refers, hnoted.here, hnoted.files,
      hnoted.events⟩
  · rename_i out e hout
    rw [hout] at hact
    exact hact

end

end Setup

end Montage
