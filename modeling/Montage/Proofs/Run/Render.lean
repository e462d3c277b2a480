import Montage.Proofs.Run.Abreast
import Montage.Proofs.Run.Taken

/-!
# Transformations abreast

A media tool renders if what it writes depends on nothing but the operation and on what its inputs
hold, and whether it succeeds on that and on the place of its output. With such a tool, a
transformation that is completed in one of two runs abreast is completed in the other as well, and
leaves them abreast. So does one that is passed over in the first, without the second doing
anything.
-/

namespace Montage

/-- What comes of a call: it fails, or it succeeds and writes nothing, or it writes its output. -/
inductive Rendering where
  | fails
  | idles
  | writes (bytes : ByteArray)

/-- The reply of a tool is that of a rendering. -/
def Rendering.Describes (rendering : Rendering) (output : Path) (fs : Files) (reply : ToolReply) :
    Prop :=
  match rendering with
  | fails => ∃ e, reply.answer = .error e
  | idles => reply.answer = .ok () ∧ reply.files = fs
  | writes bytes => match fs.write output bytes with
    | .ok out => reply.answer = .ok () ∧ reply.files = out
    | .error _ => ∃ e, reply.answer = .error e

/-- A call that succeeds writes its output or nothing. -/
theorem Rendering.Describes.of_ok {rendering : Rendering} {output : Path} {fs : Files}
    {reply : ToolReply} (h : rendering.Describes output fs reply) (hok : reply.answer = .ok ()) :
    rendering = .idles ∧ reply.files = fs ∨
      ∃ bytes, rendering = .writes bytes ∧ fs.write output bytes = .ok reply.files := by
  have hnever : ¬ ∃ e, reply.answer = .error e := by
    rintro ⟨e, he⟩
    exact absurd (hok.symm.trans he) nofun
  cases rendering with
  | fails => exact absurd h hnever
  | idles => exact .inl ⟨rfl, h.2⟩
  | writes bytes =>
    unfold Describes at h
    dsimp only at h
    split at h
    · rename_i out hwrite
      exact .inr ⟨bytes, rfl, h.2 ▸ hwrite⟩
    · exact absurd h hnever

namespace Setup
variable {T : Type} [TimeScale T] [Spelled T]

/-- What the media tool writes depends on the operation and on what its inputs hold. -/
def Renders (su : Setup T) (render : Operation T → List (Option ByteArray) → Rendering) : Prop :=
  ∀ (op : Operation T) (step : StepFiles) (scratch : Scratch) (files : Files) (i : Invocation)
    (sidecar? : Option Sidecar), op.recipe step su.font scratch files = .call i sidecar? →
    ∀ n fs, (render op (i.inputs.map fs.readable)).Describes i.output fs (su.tool.run n i fs)

end Setup

/-! ## One run -/

namespace Ground.Moves
variable {T : Type} {g : Ground} {s ready : RunState T} {t : Task T} {k : Kind} {position : Nat}
  {step : StepFiles} {sidecar? : Option Sidecar}

/-- A sidecar of which the path is the next one. -/
def IsNext (scratch : Scratch) (sidecar? : Option Sidecar) : Prop :=
  ∀ sidecar ∈ sidecar?, ∃ stem extension, '/' ∉ String.toList stem ∧
    Scratch.Plain extension ∧ sidecar.path = scratch.next stem extension

theorem of_prepared (h : g.Underway s) (hgiven : Setup.Given t k position s step) :
    g.Moves s (Setup.prepared t step s) := by
  unfold Setup.prepared
  rw [hgiven.output]
  exact ((refl h).note _).take (Setup.plain_wireName k).2 (by decide)

theorem output_eq (h : g.Underway s) (hgiven : Setup.Given t k position s step) :
    step.output = g.scratch.pathAt s.scratch.issued k.wireName "mp4" :=
  hgiven.output.trans (next_eq h _ _)

theorem spent_output (h : g.Underway s) (hgiven : Setup.Given t k position s step) {u : Scratch}
    (hu : s.scratch.issued < u.issued) : g.scratch.Spent u step.output :=
  ⟨s.scratch.issued, k.wireName, "mp4", (Scratch.Underway.later h).issued, hu,
    (Setup.plain_wireName k).2, by decide, output_eq h hgiven⟩

/-- Once the sidecar is written, nothing is at the path of the output yet. -/
theorem of_ready (h : g.Underway s) (hgiven : Setup.Given t k position s step)
    (hnext : IsNext s.scratch.advance sidecar?)
    (hready : Setup.writeSidecar position sidecar? (Setup.prepared t step s) = (ready, .ok ())) :
    g.Moves s ready ∧ ready.scratch.issued = s.scratch.issued + 1 + sidecar?.toList.length ∧
      ready.files.holds step.output = false := by
  have hprepared := of_prepared h hgiven
  have hvacant : s.files.holds step.output = false := by
    rw [output_eq h hgiven]
    exact Scratch.Underway.vacant h _ _ _ (Nat.le_refl _) (Setup.plain_wireName k).2 (by decide)
  obtain ⟨rfl, rfl⟩ | ⟨sidecar, files, rfl, hwrite, rfl⟩ := Setup.writeSidecar_ok hready
  · exact ⟨hprepared, rfl, hvacant⟩
  · obtain ⟨stem, extension, hstem, hextension, hnextPath⟩ := hnext sidecar rfl
    have hpath : sidecar.path = (Setup.prepared t step s).scratch.next stem extension := hnextPath
    have htouch : (Setup.prepared t step s).files.Touches files
        (g.scratch.pathAt (Setup.prepared t step s).scratch.issued stem extension) := by
      rw [← next_eq hprepared.underway, ← hpath]
      exact Files.touches_of_write hwrite
    have hwritten := ((refl hprepared.underway).take hstem hextension).touch hprepared.underway
      (Nat.le_refl _) (Nat.lt_succ_self _) hstem hextension htouch
    refine ⟨hprepared.trans (hpath ▸ hwritten.note _), rfl, ?_⟩
    have hspent : g.scratch.Spent (Setup.prepared t step s).scratch step.output :=
      spent_output h hgiven (Nat.lt_succ_self _)
    exact (Files.holds_congr (hwritten.goes.kept step.output hspent)).trans hvacant

/-- A call writes to the output of its step. -/
theorem of_invoke {su : Setup T} {i : Invocation} (h : g.Underway s)
    (hgiven : Setup.Given t k position s step)
    (m : g.Moves s ready) (hlt : s.scratch.issued < ready.scratch.issued)
    (hout : ready.files.Touches (su.tool.run ready.calls i ready.files).files step.output) :
    g.Moves s (su.invoke position i ready).1 := by
  have hcalled := m.touch h (Nat.le_refl _) hlt (Setup.plain_wireName k).2 (by decide)
    (output_eq h hgiven ▸ hout)
  exact ⟨hcalled.goes, hcalled.agree, hcalled.tracking, hcalled.steps, hcalled.skipped⟩

end Ground.Moves

/-! ## Two runs -/

namespace Twins.Abreast
variable {T : Type} {w : Twins} {s s' out : RunState T} {t : Task T} {k : Kind} {position : Nat}

/-- The paths of a task itself stand for the same in both runs. -/
theorem isFile_eq (h : w.Abreast s s') {p : Path}
    (hp : ¬ w.first.own (p.lands w.first.start.here)) :
    s'.files.isFile p = s.files.isFile p ∧ w.Alike s.scratch s.files s'.scratch s'.files p p := by
  refine ⟨h.agree.isFile_eq ?_, .elsewhere hp⟩
  rwa [Scratch.Underway.here_eq h.first]

theorem map_readable (h : w.Abreast s s') {ps ps' : List Path}
    (hps : List.Forall₂ (w.Alike s.scratch s.files s'.scratch s'.files) ps ps') :
    ps'.map s'.files.readable = ps.map s.files.readable := by
  induction hps with
  | nil => rfl
  | cons hp _ ih =>
    rw [List.map_cons, List.map_cons, ih,
      hp.readable_eq h.agree (Scratch.Underway.here_eq h.first)]

/-- What can be written in the first run can be written in the second, under a number that is not
greater, as long as nothing is there. -/
theorem exists_write (h : w.Abreast s s') {m n : Nat} {stem extension : String} (hmn : m ≤ n)
    (hstem : '/' ∉ stem.toList) (hextension : Scratch.Plain extension)
    (hvacant : s'.files.holds (w.other.pathAt m stem extension) = false) {bytes : ByteArray}
    {files : Files}
    (hwrite : s.files.write (w.first.scratch.pathAt n stem extension) bytes = .ok files)
    (bytes' : ByteArray) :
    ∃ files', s'.files.write (w.other.pathAt m stem extension) bytes' = .ok files' :=
  Scratch.exists_write_pathAt w.first.digits w.digits w.dir w.first.ready.directory
    (Scratch.Underway.agree h.first).tree (Scratch.Underway.agree h.second).tree hmn hstem
    hextension hvacant hwrite bytes'

variable {ready : RunState T} {step step' : StepFiles} {sidecar? sidecar'? : Option Sidecar}

/-- If the first run can write its sidecar, the second can. -/
theorem exists_ready (h : w.Abreast s s') (hgiven : Setup.Given t k position s step)
    {position' : Nat} (hgiven' : Setup.Given t k position' s' step')
    (hsidecar : SameSidecar s.scratch.advance s'.scratch.advance sidecar? sidecar'?)
    (hready : Setup.writeSidecar position sidecar? (Setup.prepared t step s) = (ready, .ok ())) :
    ∃ ready', Setup.writeSidecar position' sidecar'? (Setup.prepared t step' s') =
      (ready', .ok ()) := by
  obtain ⟨rfl, rfl⟩ | ⟨stem, extension, text, text', hstem, hextension, rfl, rfl⟩ := hsidecar
  · exact ⟨_, rfl⟩
  · obtain ⟨hnone, -⟩ | ⟨sidecar, files, hsome, hwrite, -⟩ := Setup.writeSidecar_ok hready
    · exact absurd hnone nofun
    · obtain rfl := Option.some.inj hsome
      have hprepared := h.moves (.of_prepared h.first hgiven) (.of_prepared h.second hgiven')
        (Nat.succ_le_succ h.issued)
      have hpath : (Setup.prepared t step s).scratch.next stem extension =
          w.first.scratch.pathAt (Setup.prepared t step s).scratch.issued stem extension :=
        Ground.Moves.next_eq hprepared.first stem extension
      have hpath' : (Setup.prepared t step' s').scratch.next stem extension =
          w.other.pathAt (Setup.prepared t step' s').scratch.issued stem extension :=
        Ground.Moves.next_eq hprepared.second stem extension
      have hvacant' := Scratch.Underway.vacant hprepared.second _ stem extension (Nat.le_refl _)
        hstem hextension
      dsimp only [Files.writeText] at hwrite
      rw [show s.scratch.advance.next stem extension = _ from hpath] at hwrite
      obtain ⟨files', hwrite'⟩ := hprepared.exists_write hprepared.issued hstem hextension hvacant'
        hwrite text'.toUTF8
      rw [← hpath'] at hwrite'
      exact ⟨_, Setup.writeSidecar_of_write hwrite' position'⟩

theorem isNext_of_sameSidecar {scratch scratch' : Scratch}
    (h : SameSidecar scratch scratch' sidecar? sidecar'?) :
    Ground.Moves.IsNext scratch sidecar? ∧ Ground.Moves.IsNext scratch' sidecar'? ∧
      sidecar'?.toList.length = sidecar?.toList.length := by
  obtain ⟨rfl, rfl⟩ | ⟨stem, extension, text, text', hstem, hextension, rfl, rfl⟩ := h
  · exact ⟨nofun, nofun, rfl⟩
  · refine ⟨?_, ?_, rfl⟩
    · rintro sidecar ⟨⟩
      exact ⟨stem, extension, hstem, hextension, rfl⟩
    · rintro sidecar ⟨⟩
      exact ⟨stem, extension, hstem, hextension, rfl⟩

/-- If the first run can write its output, the second can. -/
theorem exists_write_output {ready' : RunState T} (h : w.Abreast s s')
    (hready : w.Abreast ready ready') (hgiven : Setup.Given t k position s step) {position' : Nat}
    (hgiven' : Setup.Given t k position' s' step')
    (hvacant' : ready'.files.holds step'.output = false) {bytes : ByteArray} {files : Files}
    (hwrite : ready.files.write step.output bytes = .ok files) :
    ∃ files', ready'.files.write step'.output bytes = .ok files' := by
  rw [Ground.Moves.output_eq h.first hgiven] at hwrite
  rw [Ground.Moves.output_eq h.second hgiven'] at hvacant' ⊢
  exact hready.exists_write h.issued (Setup.plain_wireName k).2 (by decide) hvacant' hwrite bytes

variable [TimeScale T] [Spelled T] {su : Setup T}
  {render : Operation T → List (Option ByteArray) → Rendering}

/-- A call that succeeds in the first run succeeds in the second, and writes the same to its output,
or nothing. -/
theorem rendered {ready' : RunState T} {i i' : Invocation} {op : Operation T}
    {scratch scratch' : Scratch} {fs fs' : Files} (h : w.Abreast ready ready')
    (hsu : su.Renders render) (hrecipe : op.recipe step su.font scratch fs = .call i sidecar?)
    (hrecipe' : op.recipe step' su.font scratch' fs' = .call i' sidecar'?)
    (hreads : List.Forall₂ (w.Alike ready.scratch ready.files ready'.scratch ready'.files)
      i.inputs i'.inputs)
    (hvacant : ready.files.holds i.output = false)
    (hvacant' : ready'.files.holds i'.output = false)
    (hwrites : ∀ bytes files, ready.files.write i.output bytes = .ok files →
      ∃ files', ready'.files.write i'.output bytes = .ok files')
    (hcall : (su.tool.run ready.calls i ready.files).answer = .ok ()) :
    let reply := su.tool.run ready.calls i ready.files
    let reply' := su.tool.run ready'.calls i' ready'.files
    reply'.answer = .ok () ∧ ready.files.Touches reply.files i.output ∧
      ready'.files.Touches reply'.files i'.output ∧
      reply'.files.readable i'.output = reply.files.readable i.output := by
  intro reply reply'
  have hreply := hsu op step scratch fs i sidecar? hrecipe ready.calls ready.files
  have hreply' := hsu op step' scratch' fs' i' sidecar'? hrecipe' ready'.calls ready'.files
  rw [h.map_readable hreads] at hreply'
  rcases hreply.of_ok hcall with ⟨hidles, hkeep⟩ | ⟨bytes, hbytes, hwrite⟩
  · rw [hidles] at hreply'
    obtain ⟨hanswer', hkeep'⟩ := hreply'
    refine ⟨hanswer', ?_, ?_, ?_⟩
    · rw [show reply.files = ready.files from hkeep]
      exact .refl _ _
    · rw [show reply'.files = ready'.files from hkeep']
      exact .refl _ _
    · rw [show reply.files = ready.files from hkeep, show reply'.files = ready'.files from hkeep',
        Files.readable_eq_none hvacant, Files.readable_eq_none hvacant']
  · obtain ⟨files', hwrite'⟩ := hwrites bytes _ hwrite
    rw [hbytes] at hreply'
    unfold Rendering.Describes at hreply'
    dsimp only at hreply'
    rw [hwrite'] at hreply'
    obtain ⟨hanswer', hfiles'⟩ := hreply'
    refine ⟨hanswer', Files.touches_of_write hwrite, ?_, ?_⟩
    · rw [show reply'.files = files' from hfiles']
      exact Files.touches_of_write hwrite'
    · rw [show reply'.files = files' from hfiles', Files.readable_of_write hwrite,
        Files.readable_of_write hwrite']

/-- A transformation that is completed in the first run is completed in the second. -/
theorem done_transform (h : w.Abreast s s') (hsu : su.Renders render)
    (hpaths : ∀ p ∈ t.paths, ¬ w.first.own (p.lands w.first.start.here))
    (hdone : su.transform t k position s = (out, .done)) (position' : Nat) :
    ∃ out', su.transform t k position' s' = (out', .done) ∧ w.Abreast out out' := by
  have hcases := Setup.transformed su t k position s
  rw [hdone] at hcases
  dsimp only at hcases
  cases hcases with
  | @done step i sidecar? ready hgiven hrecipe hready hcall =>
    obtain ⟨step', hgiven', hinputs, hattachment⟩ :=
      hgiven.parallel h.registry (fun p hp => h.isFile_eq (hpaths p hp)) position'
    obtain ⟨i', sidecar'?, hrecipe', hreads, hsidecar⟩ := Operation.recipe_parallel hrecipe hinputs
      hattachment s'.scratch.advance s'.files
    obtain ⟨hnext, hnext', hlength⟩ := isNext_of_sameSidecar hsidecar
    obtain ⟨ready', hready'⟩ := h.exists_ready hgiven hgiven' hsidecar hready
    obtain ⟨m, hissued, hvacant⟩ := Ground.Moves.of_ready h.first hgiven hnext hready
    obtain ⟨m', hissued', hvacant'⟩ := Ground.Moves.of_ready h.second hgiven' hnext' hready'
    have hissues := h.issued
    have hlt : s.scratch.issued < ready.scratch.issued := by omega
    have hlt' : s'.scratch.issued < ready'.scratch.issued := by omega
    have habreast := h.moves m m' (by omega)
    have houtput : i.output = step.output := (Operation.calls_of_recipe hrecipe).output
    have houtput' : i'.output = step'.output := (Operation.calls_of_recipe hrecipe').output
    obtain ⟨hcall', htouch, htouch', hread⟩ := habreast.rendered hsu hrecipe hrecipe'
      (hreads.imp fun _ _ hp => hp.goes m.goes m'.goes) (houtput ▸ hvacant) (houtput' ▸ hvacant')
      (fun bytes files hwrite => houtput' ▸ h.exists_write_output habreast hgiven hgiven' hvacant'
        (houtput ▸ hwrite)) hcall
    refine ⟨_, Setup.transform_done su hgiven' hrecipe' hready' hcall', ?_⟩
    have hcalled := h.moves
      (.of_invoke h.first hgiven m hlt (houtput ▸ htouch))
      (.of_invoke h.second hgiven' m' hlt' (houtput' ▸ htouch')) habreast.issued
    rw [houtput, houtput'] at hread
    exact hcalled.publish (.taken (Ground.Moves.spent_output h.first hgiven hlt)
      (Ground.Moves.spent_output h.second hgiven' hlt') hread) t.output .mainChain

/-- What is passed over in the first run leaves the runs abreast. -/
theorem skipped_transform (h : w.Abreast s s') {reason : String}
    (hskipped : su.transform t k position s = (out, .skipped reason)) : w.Abreast out s' := by
  have hcases := Setup.transformed su t k position s
  rw [hskipped] at hcases
  dsimp only at hcases
  cases hcases with
  | missed hmissed => exact h
  | pointless hgiven hrecipe => exact h.moves_first (.of_prepared h.first hgiven)

end Twins.Abreast

end Montage
