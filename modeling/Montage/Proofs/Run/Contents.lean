import Mathlib.Logic.Function.Basic
import Montage.Proofs.Content.Library
import Montage.Time.Text

/-!
# What a run leaves behind

A run that fails leaves the contents of the files as they were before, at whatever point it failed.
A run that succeeds has changed them at one place alone: the output has the contents of the file
that was current when the last task was done.

The statement is about paths as keys of contents, so that no file of the run may be reached from the
output by a path that is written in another way.
-/

namespace Montage

/-- No path of `ps` leads where `output` leads, unless both are written alike. -/
def Files.Keyed (fs : Files) (ps : List Path) (output : Path) : Prop :=
  ∀ p ∈ ps, fs.samePlace p output = true → p.same output = true

namespace Tidy
variable {scratch s : Scratch} {start fs paved out : Files} {source output p : Path} {r : Registry}
  {q : Place}

/-- What is not the place of a tracked file has the contents that it had at the start. -/
theorem contents_eq (h : Tidy scratch start source r s fs)
    (hq : ∀ t ∈ r.transients, fs.locate t.path ≠ .ok q) : fs.contents q = start.contents q := by
  by_cases hsame : fs.at? q = start.at? q
  · unfold Files.contents
    rw [hsame]
  · obtain ⟨t, ht, hloc⟩ := h.changed q hsame
    exact absurd hloc (hq t ht)

/-- Where a tracked file leads, nothing could be read at the start. -/
theorem contents_eq_none (h : Tidy scratch start source r s fs) (hready : scratch.Ready start)
    (hgrows : start.Grows out) {t : Transient} (ht : t ∈ r.transients)
    (hq : out.locate t.path = .ok q) : start.contents q = none :=
  Files.contents_eq_none.mpr (.inl (hready.at?_eq_none (h.tracked t ht).2 hgrows hq))

/-- Sweeping all that is tracked gives back the contents of the start. -/
theorem contents_sweep (h : Tidy scratch start source r s fs) (hready : scratch.Ready start)
    (hpaved : fs.Paved paved) :
    (Registry.sweep paved r.transients).files.contents = start.contents := by
  have hgrows := h.tree.1.trans hpaved.grows
  funext q
  by_cases hq : ∃ t ∈ r.transients, paved.locate t.path = .ok q
  · obtain ⟨t, ht, hloc⟩ := hq
    rw [Registry.contents_sweep ht (h.tracked t ht).1 hloc,
      h.contents_eq_none hready hgrows ht hloc]
  · have hno : ∀ t ∈ r.transients, paved.locate t.path ≠ .ok q := fun t ht hloc =>
      hq ⟨t, ht, hloc⟩
    have hswept := Registry.at?_sweep fun t ht _ => hno t ht
    calc (Registry.sweep paved r.transients).files.contents q
        = paved.contents q := by unfold Files.contents; rw [hswept]
      _ = fs.contents q := by rw [hpaved.contents_eq]
      _ = start.contents q := h.contents_eq fun t ht hloc => hno t ht (hpaved.grows.locate hloc)

/-- Sweeping all but the output leaves its contents besides those of the start. -/
theorem contents_sweep_persist (h : Tidy scratch start source r s fs) (hready : scratch.Ready start)
    (hpaved : fs.Paved paved) (htouch : paved.Touches out p) (hp : p.same output = true)
    (hloc : out.locate p = .ok q) {bytes : ByteArray} (hbytes : out.contents q = some bytes)
    (hkeep : ∀ t ∈ r.transients, out.locate t.path = .ok q → t.path.same output = true) :
    (Registry.sweep out (r.persist output).transients).files.contents =
      Function.update start.contents q (some bytes) := by
  have hgrows := (h.tree.1.trans hpaved.grows).trans htouch.sameTree.1
  funext q'
  by_cases hq : q' = q
  · subst hq
    have hswept : (Registry.sweep out (r.persist output).transients).files.at? q' = out.at? q' := by
      refine Registry.at?_sweep fun t ht hstate htloc => ?_
      obtain ⟨hold, -, hsame⟩ := Registry.mem_persist_produced.mp ⟨ht, hstate⟩
      rw [hkeep t hold htloc] at hsame
      exact absurd hsame (by simp)
    rw [Function.update_self, ← hbytes]
    unfold Files.contents
    rw [hswept]
  · rw [Function.update_of_ne hq]
    by_cases hplace : ∃ t ∈ r.transients, out.locate t.path = .ok q'
    · obtain ⟨t, ht, htloc⟩ := hplace
      have hsame : t.path.same output = false := by
        rw [← Bool.not_eq_true]
        intro hsame
        have hpt : t.path.same p = true := by simp_all [Path.same]
        exact hq (Files.locate_inj_of_same hpt htloc hloc)
      have hpersist := Registry.mem_persist_produced.mpr ⟨ht, (h.tracked t ht).1, hsame⟩
      rw [Registry.contents_sweep hpersist.1 hpersist.2 htloc,
        h.contents_eq_none hready hgrows ht htloc]
    · have hno : ∀ t ∈ r.transients, out.locate t.path ≠ .ok q' := fun t ht htloc =>
        hplace ⟨t, ht, htloc⟩
      have hswept : (Registry.sweep out (r.persist output).transients).files.at? q' =
          out.at? q' := by
        refine Registry.at?_sweep fun t ht hstate => ?_
        exact hno t (Registry.mem_persist_produced.mp ⟨ht, hstate⟩).1
      have helse : out.at? q' = paved.at? q' := htouch.elsewhere q' fun hpaved' =>
        hq (htouch.sameTree.1.locate_inj hpaved' hloc)
      calc (Registry.sweep out (r.persist output).transients).files.contents q'
          = out.contents q' := by unfold Files.contents; rw [hswept]
        _ = paved.contents q' := by unfold Files.contents; rw [helse]
        _ = fs.contents q' := by rw [hpaved.contents_eq]
        _ = start.contents q' := h.contents_eq fun t ht htloc =>
          hno t ht ((hpaved.grows.trans htouch.sameTree.1).locate htloc)

/-- The current file can be read if anything is there: no directory comes to be in a run. -/
theorem read_current (h : Tidy scratch start source r s fs) (hready : scratch.Ready start)
    (hsource : start.isFile source = true) (hholds : fs.holds r.current = true) :
    ∃ q bytes, fs.locate r.current = .ok q ∧ fs.contents q = some bytes := by
  obtain ⟨q, e, hq, he⟩ := Files.holds_iff.mp hholds
  have hdir : fs.at? q ≠ some .directory := by
    intro hfs
    have hstart := h.tree.2.directories q hfs
    rcases h.current with hcurrent | hgives
    · obtain ⟨q', bytes, hq', hbytes⟩ := Files.contents_of_isFile hsource
      rw [hcurrent] at hq
      rw [← h.tree.1.locate_inj hq' hq] at hstart
      rw [Files.contents_eq_none.mpr (.inr hstart)] at hbytes
      exact absurd hbytes (by simp)
    · rw [hready.at?_eq_none hgives h.tree.1 hq] at hstart
      exact absurd hstart (by simp)
  cases hc : fs.contents q with
  | some bytes => exact ⟨q, bytes, hq, hc⟩
  | none =>
    rcases Files.contents_eq_none.mp hc with hnone | hfs
    · rw [hnone] at he
      exact absurd he (by simp)
    · exact absurd hfs hdir

/-- A tracked file at the place of the current one is the current one. -/
theorem same_of_locate_current (h : Tidy scratch start source r s fs)
    (hready : scratch.Ready start) (hsource : start.isFile source = true)
    (hq : fs.locate r.current = .ok q) {t : Transient} (ht : t ∈ r.transients)
    (htloc : fs.locate t.path = .ok q) : t.path = r.current := by
  obtain ⟨-, htgives⟩ := h.tracked t ht
  rcases h.current with hcurrent | hgives
  · obtain ⟨q', bytes, hq', hbytes⟩ := Files.contents_of_isFile hsource
    rw [hcurrent] at hq
    rw [h.tree.1.locate_inj hq' hq, h.contents_eq_none hready h.tree.1 ht htloc] at hbytes
    exact absurd hbytes (by simp)
  · rw [hready.locate_eq hgives h.tree.1] at hq
    rw [hready.locate_eq htgives h.tree.1] at htloc
    exact hready.eq_of_locate htgives hgives htloc hq

/-- The final copy and the sweep behind it change the contents at the output alone. -/
theorem finalize_contents (h : Tidy scratch start source r s fs) (hready : scratch.Ready start)
    (hsource : start.isFile source = true)
    (hfinal : Scratch.finalize r.current output fs = (.ok (), out))
    (hkeyed : (Registry.sweep out (r.persist output).transients).files.Keyed
      (r.current :: r.transients.map Transient.path) output) :
    ∃ p q bytes, p.same output = true ∧
      (Registry.sweep out (r.persist output).transients).files.locate p = .ok q ∧
      fs.read r.current = .ok bytes ∧
      (Registry.sweep out (r.persist output).transients).files.contents =
        Function.update start.contents q (some bytes) := by
  have hsweep := Registry.sweep_sameTree out (r.persist output).transients
  obtain ⟨hholds, hcases⟩ := Scratch.finalize_ok hfinal
  rcases hcases with ⟨hsame, rfl⟩ | ⟨hother, paved, bytes, hpaved, hread, hwrite⟩
  · obtain ⟨q, bytes, hq, hbytes⟩ := h.read_current hready hsource hholds
    have hread : out.read r.current = .ok bytes := Files.read_eq_ok.mpr ⟨q, hq, hbytes⟩
    have hkeep : ∀ t ∈ r.transients, out.locate t.path = .ok q → t.path.same output = true := by
      intro t ht htloc
      rw [h.same_of_locate_current hready hsource hq ht htloc]
      exact hsame
    exact ⟨r.current, q, bytes, hsame, hsweep.1.locate hq, hread, h.contents_sweep_persist hready
      (.refl out) (.refl out r.current) hsame hq hbytes hkeep⟩
  · have htouch := Files.touches_of_write hwrite
    have hapart : paved.samePlace r.current output = false := by
      rw [← Bool.not_eq_true]
      intro hplace
      rw [← (htouch.sameTree.trans hsweep).samePlace_eq] at hplace
      rw [hkeyed r.current List.mem_cons_self hplace] at hother
      exact absurd hother (by simp)
    rw [hapart] at hwrite
    obtain ⟨dest, hdest, hnil, -, rfl⟩ := Files.write_eq_ok hwrite
    have hloc := htouch.sameTree.1.locate hdest
    have hcontents : (paved.set dest (.file bytes)).contents dest = some bytes := by
      unfold Files.contents
      rw [Files.at?_set_self paved hnil]
      rfl
    have hkeep : ∀ t ∈ r.transients,
        (paved.set dest (.file bytes)).locate t.path = .ok dest → t.path.same output = true := by
      intro t ht htloc
      refine hkeyed t.path (List.mem_cons_of_mem _ (List.mem_map_of_mem ht)) ?_
      exact Files.samePlace_iff.mpr ⟨dest, hsweep.1.locate htloc, hsweep.1.locate hloc⟩
    exact ⟨output, dest, bytes, by simp [Path.same], hsweep.1.locate hloc, hread,
      h.contents_sweep_persist hready hpaved htouch (by simp [Path.same]) hloc hcontents hkeep⟩

end Tidy

namespace Setup
variable {T : Type} [TimeScale T] [Spelled T]

/-- The run when the last task is done, or one has failed. -/
def reached (su : Setup T) (ts : Plan T) (source : Path) (scratch : Scratch) (files : Files) :
    RunState T :=
  (su.runFrom ts.length 1 ts
    ((RunState.start source ts scratch files).note [.began ts.length source su.tool.name])).1

/-- A run on a file ends with a sweep: of all that is tracked if it fails, and of all but the output
if the final copy succeeds. -/
theorem run_cases (su : Setup T) (ts : Plan T) {source : Path} (output : Path) (scratch : Scratch)
    {files : Files} (hsource : files.isFile source = true) :
    ((∃ e, (su.run ts source output scratch files).answer = .error e) ∧
      ∃ fs, (su.reached ts source scratch files).files.Paved fs ∧
        (su.run ts source output scratch files).state.files =
          (Registry.sweep fs (su.reached ts source scratch files).registry.transients).files) ∨
    (∃ report, (su.run ts source output scratch files).answer = .ok report) ∧
      ∃ fs, Scratch.finalize (su.reached ts source scratch files).registry.current output
          (su.reached ts source scratch files).files = (.ok (), fs) ∧
        (su.run ts source output scratch files).state.files = (Registry.sweep fs
          ((su.reached ts source scratch files).registry.persist output).transients).files := by
  unfold run runOn reached
  simp only [hsource, if_true]
  generalize su.runFrom ts.length 1 ts ((RunState.start source ts scratch files).note
    [.began ts.length source su.tool.name]) = result
  obtain ⟨s, answer⟩ := result
  cases answer with
  | error e => exact .inl ⟨⟨e, rfl⟩, s.files, .refl _, rfl⟩
  | ok u =>
    dsimp only [persist]
    cases hfinal : Scratch.finalize s.registry.current output s.files with
    | mk final fs =>
      cases final with
      | error e => exact .inl ⟨⟨e, rfl⟩, fs, Scratch.finalize_error hfinal, rfl⟩
      | ok u => exact .inr ⟨⟨_, rfl⟩, fs, rfl, rfl⟩

theorem tidy_reached {su : Setup T} {scratch : Scratch} {files : Files}
    (hready : scratch.Ready files) (htool : su.tool.WritesOutput)
    (hcontent : su.content.PlacesIn scratch) (ts : Plan T) (source : Path) :
    (su.reached ts source scratch files).Tidy scratch files source := by
  have hstart : ((RunState.start source ts scratch files).note
      [.began ts.length source su.tool.name]).Tidy scratch files source :=
    Tidy.initial scratch files source (ts.filterMap Task.output)
  exact tidy_runFrom hready htool hcontent hstart ts.length 1 ts

/-- A run that fails leaves all contents as they were; one that succeeds changes them at its output
alone, which gets those of the current file. An output with a slash at its end stands for the path
that is written like it. -/
theorem run_contents (su : Setup T) {scratch : Scratch} {files : Files}
    (hready : scratch.Ready files) (htool : su.tool.WritesOutput)
    (hcontent : su.content.PlacesIn scratch) (ts : Plan T) (source output : Path) :
    let s := su.reached ts source scratch files
    let last := su.run ts source output scratch files
    (∀ e, last.answer = .error e → last.state.files.contents = files.contents) ∧
    ∀ report, last.answer = .ok report →
      last.state.files.Keyed (s.registry.current :: s.registry.transients.map Transient.path)
        output →
      ∃ p q bytes, p.same output = true ∧ last.state.files.locate p = .ok q ∧
        s.files.read s.registry.current = .ok bytes ∧
        last.state.files.contents = Function.update files.contents q (some bytes) := by
  intro s last
  by_cases hsource : files.isFile source = true
  · have htidy : s.Tidy scratch files source := tidy_reached hready htool hcontent ts source
    rcases su.run_cases ts output scratch hsource with
      ⟨⟨e, he⟩, fs, hpaved, hfiles⟩ | ⟨⟨report, hreport⟩, fs, hfinal, hfiles⟩
    · refine ⟨fun _ _ => ?_, fun report hreport => ?_⟩
      · change (su.run ts source output scratch files).state.files.contents = files.contents
        rw [hfiles]
        exact Tidy.contents_sweep htidy hready hpaved
      · exact absurd (he.symm.trans hreport) (by simp)
    · refine ⟨fun e he => absurd (hreport.symm.trans he) (by simp), fun _ _ hkeyed => ?_⟩
      change (su.run ts source output scratch files).state.files.Keyed _ _ at hkeyed
      change ∃ p q bytes, p.same output = true ∧
        (su.run ts source output scratch files).state.files.locate p = .ok q ∧
        s.files.read s.registry.current = .ok bytes ∧
        (su.run ts source output scratch files).state.files.contents = _
      rw [hfiles] at hkeyed ⊢
      exact Tidy.finalize_contents htidy hready hsource hfinal hkeyed
  · have hrun : last = ⟨.error (.validation ("input " ++ source.text ++ " does not exist")),
        RunState.start source ts scratch files⟩ := by
      simp only [last, run, hsource, Bool.false_eq_true, if_false]
    rw [hrun]
    exact ⟨fun _ _ => rfl, fun report hreport => absurd hreport (by simp)⟩

end Setup

/-! ## A run in an empty scratch directory -/

/-- A tool that writes the name of its step to its output. -/
def stamp : MediaTool where
  name := "stamp"
  run _ i fs :=
    match fs.writeText i.output i.step with
    | .ok out => ⟨.ok (), out, []⟩
    | .error e => ⟨.error (.io e), fs, []⟩

theorem stamp_writesOutput : stamp.WritesOutput := by
  intro n i fs
  cases hwrite : fs.writeText i.output i.step with
  | error e =>
    have hkeep : (stamp.run n i fs).files = fs := by simp only [stamp, hwrite]
    rw [hkeep]
    exact .refl fs i.output
  | ok out =>
    have hout : (stamp.run n i fs).files = out := by simp only [stamp, hwrite]
    rw [hout]
    exact Files.touches_of_write hwrite

/-- A source, a library with one picture, and an empty directory. -/
def desk : Files where
  here := []
  entries := [(["scratch"], .directory), (["library"], .directory),
    (["library", "logo.png"], .file "logo".toUTF8), (["in.mp4"], .file "src".toUTF8)]

def deskScratch : Scratch := ⟨⟨"/scratch"⟩, false, fun _ => "0a1b2c3d", 0⟩

def deskSetup : Setup Float where
  tool := stamp
  content := (⟨⟨"/library"⟩, none⟩ : Library).source ⟨fun _ _ _ _ => .overdue⟩
  font := ⟨"/font.ttf"⟩

/-- The source joined with a picture of the library, and made smaller. -/
def deskPlan : Plan Float :=
  [⟨.fetchImage ⟨"logo", [], "landscape"⟩, some "x", []⟩,
    ⟨.concat ⟨[]⟩, some "y", [sourceName, "x"]⟩,
    ⟨.resize ⟨640, none⟩, none, []⟩]

theorem deskScratch_ready : deskScratch.Ready desk := by
  apply Scratch.Ready.of_empty (d := ["scratch"])
  · rfl
  · decide +kernel
  · intro name
    simp [desk, Files.at?, List.lookup_cons]
  · intro n
    exact show '/' ∉ "0a1b2c3d".toList by decide

/-- The run on the desk succeeds, and changes the contents at one place. -/
theorem run_contents_desk :
    ∃ q bytes,
      (deskSetup.run deskPlan ⟨"/in.mp4"⟩ ⟨"/out.mp4"⟩ deskScratch desk).state.files.contents =
        Function.update desk.contents q (some bytes) := by
  have hsucceeds : (deskSetup.run deskPlan ⟨"/in.mp4"⟩ ⟨"/out.mp4"⟩ deskScratch
      desk).answer.toOption.isSome = true := by decide +kernel
  have hkeyed : (deskSetup.run deskPlan ⟨"/in.mp4"⟩ ⟨"/out.mp4"⟩ deskScratch desk).state.files.Keyed
      ((deskSetup.reached deskPlan ⟨"/in.mp4"⟩ deskScratch desk).registry.current ::
        (deskSetup.reached deskPlan ⟨"/in.mp4"⟩ deskScratch desk).registry.transients.map
          Transient.path) ⟨"/out.mp4"⟩ := by
    unfold Files.Keyed
    decide +kernel
  cases hanswer : (deskSetup.run deskPlan ⟨"/in.mp4"⟩ ⟨"/out.mp4"⟩ deskScratch desk).answer with
  | error e =>
    rw [hanswer] at hsucceeds
    exact absurd hsucceeds (by simp [Except.toOption])
  | ok report =>
    obtain ⟨p, q, bytes, -, -, -, hcontents⟩ := (Setup.run_contents deskSetup deskScratch_ready
      stamp_writesOutput (Library.placesIn_source _ _ deskScratch_ready.digits) deskPlan
      ⟨"/in.mp4"⟩ ⟨"/out.mp4"⟩).2 report hanswer hkeyed
    exact ⟨q, bytes, hcontents⟩

end Montage
