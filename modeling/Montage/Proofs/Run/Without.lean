import Montage.Proofs.Run.Answers
import Montage.Proofs.Run.Closing
import Montage.Proofs.Run.Contents
import Montage.Proofs.Run.Render

/-!
# A plan without its skipped tasks

A task that a run passes over leaves the names as they were, except that more of them may be
blocked, and it may have taken paths. So a plan without the tasks that its run has skipped runs
abreast of it. Main statement: it comes to the same output, by as many steps, and skips nothing.
-/

namespace Montage

/-! ## Tasks at positions -/

namespace Plan
variable {T : Type}

/-- Without the tasks at some positions, where the first task has the position `n`. -/
def withoutFrom (positions : List Nat) (n : Nat) : Plan T → Plan T
  | [] => []
  | t :: ts =>
    if n ∈ positions then withoutFrom positions (n + 1) ts
    else t :: withoutFrom positions (n + 1) ts

/-- Without the tasks at some positions, counted from one. -/
def without (ts : Plan T) (positions : List Nat) : Plan T := withoutFrom positions 1 ts

/-- Positions in front of the first do not matter. -/
theorem withoutFrom_cons_of_lt {m n : Nat} (hmn : m < n) (positions : List Nat) (ts : Plan T) :
    withoutFrom (m :: positions) n ts = withoutFrom positions n ts := by
  induction ts generalizing n with
  | nil => rfl
  | cons t ts ih =>
    have hmem : n ∈ m :: positions ↔ n ∈ positions := by
      rw [List.mem_cons, or_iff_right (Nat.ne_of_gt hmn)]
    simp only [withoutFrom, hmem, ih (Nat.lt_succ_of_lt hmn)]

theorem withoutFrom_sublist (positions : List Nat) (n : Nat) (ts : Plan T) :
    (withoutFrom positions n ts).Sublist ts := by
  induction ts generalizing n with
  | nil => exact .slnil
  | cons t ts ih =>
    unfold withoutFrom
    split_ifs
    · exact (ih (n + 1)).cons t
    · exact (ih (n + 1)).cons_cons t

end Plan

namespace Setup
variable {T : Type} [TimeScale T] [Spelled T] {su : Setup T} {answer : Request T → Find}
  {spare : Request T → Nat} {g : Ground} {limit : Nat} {s : RunState T}

/-! ## Paths are given out -/

theorem later_runTask (h : su.content.Answers answer spare g limit)
    (hs : g.scratch.Later s.scratch) (total position : Nat) (t : Task T) :
    s.scratch.Later (su.runTask total position t s).1.scratch := by
  cases hkind : t.kind? with
  | none =>
    rw [runTask_of_unknown su hkind]
    exact .refl s.scratch
  | some k =>
    have hact : s.scratch.Later
        (su.act t k position (s.note [.started position total t])).1.scratch := by
      unfold act
      split_ifs with hfetch
      · exact later_fetch (s := s.note [.started position total t]) h hs t
      · rw [(works_transform su hkind (by simpa using hfetch) position _).scratch]
        exact ⟨rfl, rfl, Nat.le_add_right ..⟩
    rw [runTask_of_kind su hkind]
    generalize su.act t k position (s.note [.started position total t]) = result at hact ⊢
    obtain ⟨out, outcome⟩ := result
    cases outcome with
    | done => exact hact
    | skipped reason => exact hact
    | failed e => exact hact

theorem later_runFrom (h : su.content.Answers answer spare g limit)
    (hs : g.scratch.Later s.scratch) (total position : Nat) (ts : Plan T) :
    s.scratch.Later (su.runFrom total position ts s).1.scratch := by
  induction ts generalizing position s with
  | nil => exact .refl s.scratch
  | cons t ts ih =>
    have htask := later_runTask h hs total position t
    rw [runFrom]
    split
    · rename_i out e hout
      rw [hout] at htask
      exact htask
    · rename_i out hout
      rw [hout] at htask
      exact htask.trans (ih (hs.trans htask) (position + 1))

end Setup

/-! ## Runs abreast -/

namespace Twins.Abreast
variable {T : Type} [TimeScale T] [Spelled T] {w : Twins} {su : Setup T}
  {render : Operation T → List (Option ByteArray) → Rendering} {answer : Request T → Find}
  {spare : Request T → Nat} {limit : Nat} {s s' out : RunState T} {t : Task T}

section Tasks
variable (hsu : su.Renders render) (hcontent : su.content.Answers answer spare w.first limit)
  (hcontent' : su.content.Answers answer spare w.second limit)
include hcontent hcontent'

/-- What the first run passes over leaves the runs abreast. -/
theorem skipped_act (h : w.Abreast s s') {k : Kind} {position : Nat} {reason : String}
    (hact : su.act t k position s = (out, .skipped reason))
    (hlimit : out.scratch.issued ≤ limit) : w.Abreast out s' := by
  unfold Setup.act at hact
  split_ifs at hact with hfetch
  · have hcases := h.fetch_cases (t := t) hcontent hcontent' (hact ▸ hlimit)
    rw [hact] at hcases
    obtain ⟨-, -, habreast⟩ | ⟨hdone, -⟩ := hcases
    · exact habreast
    · exact absurd hdone nofun
  · exact h.skipped_transform hact

include hsu

/-- What the first run completes the second completes as well. -/
theorem done_act (h : w.Abreast s s')
    (hpaths : ∀ p ∈ t.paths, ¬ w.first.own (p.lands w.first.start.here)) {k : Kind}
    {position : Nat} (hact : su.act t k position s = (out, .done))
    (hlimit : out.scratch.issued ≤ limit) (position' : Nat) :
    ∃ out', su.act t k position' s' = (out', .done) ∧ w.Abreast out out' := by
  unfold Setup.act at hact ⊢
  split_ifs at hact ⊢ with hfetch
  · have hcases := h.fetch_cases (t := t) hcontent hcontent' (hact ▸ hlimit)
    rw [hact] at hcases
    obtain ⟨reason, hskipped, -⟩ | ⟨-, hdone', habreast⟩ := hcases
    · exact absurd hskipped nofun
    · exact ⟨_, Prod.ext rfl hdone', habreast⟩
  · exact h.done_transform hsu hpaths hact position'

/-- A task of the first run is skipped and leaves the runs abreast, or the second run completes it
as well. -/
theorem runTask_cases (h : w.Abreast s s')
    (hpaths : ∀ p ∈ t.paths, ¬ w.first.own (p.lands w.first.start.here)) {total position : Nat}
    (hok : su.runTask total position t s = (out, .ok ())) (hlimit : out.scratch.issued ≤ limit) :
    (∃ skip : Skipped, skip.position = position ∧ out.skipped = s.skipped ++ [skip] ∧
        w.Abreast out s') ∨
      out.skipped = s.skipped ∧ ∀ total' position',
        ∃ out', su.runTask total' position' t s' = (out', .ok ()) ∧ w.Abreast out out' := by
  cases hkind : t.kind? with
  | none =>
    rw [Setup.runTask_of_unknown su hkind] at hok
    obtain ⟨rfl, -⟩ := Prod.mk.inj hok
    exact .inl ⟨_, rfl, rfl, (h.skip_first _).note_first _⟩
  | some k =>
    have hstarted := h.note_first [.started position total t]
    have hkept := (Setup.advances_act su hkind position
      (s.note [.started position total t])).1.skipped
    rw [Setup.runTask_of_kind su hkind] at hok
    cases hact : su.act t k position (s.note [.started position total t]) with
    | mk mid outcome =>
      rw [hact] at hok hkept
      cases outcome with
      | failed e => exact absurd (Prod.mk.inj hok).2 nofun
      | skipped reason =>
        obtain ⟨rfl, -⟩ := Prod.mk.inj hok
        have hskipped := hstarted.skipped_act hcontent hcontent' hact hlimit
        refine .inl ⟨⟨position, t.op.typeName, reason⟩, rfl, ?_,
          (hskipped.skip_first _).note_first _⟩
        exact congrArg (· ++ [_]) hkept
      | done =>
        obtain ⟨rfl, -⟩ := Prod.mk.inj hok
        refine .inr ⟨hkept, fun total' position' => ?_⟩
        obtain ⟨mid', hact', hdone⟩ := (hstarted.note_second [.started position' total' t]).done_act
          hsu hcontent hcontent' hpaths hact hlimit position'
        rw [Setup.runTask_of_kind su hkind, hact']
        exact ⟨_, rfl, (hdone.count.note_first _).note_second _⟩

/-- What the first run skips it skips from its position on, and without those tasks the second run
comes to its end as well. -/
theorem runFrom_cases (h : w.Abreast s s') {ts : Plan T}
    (hpaths : ∀ t ∈ ts, ∀ p ∈ t.paths, ¬ w.first.own (p.lands w.first.start.here))
    {total position : Nat} (hok : su.runFrom total position ts s = (out, .ok ()))
    (hlimit : out.scratch.issued ≤ limit) :
    ∃ more : List Skipped, out.skipped = s.skipped ++ more ∧
      (∀ skip ∈ more, position ≤ skip.position) ∧ ∀ total' position',
        ∃ out', su.runFrom total' position'
            (Plan.withoutFrom (more.map Skipped.position) position ts) s' = (out', .ok ()) ∧
          w.Abreast out out' := by
  induction ts generalizing position s s' with
  | nil =>
    obtain ⟨rfl, -⟩ := Prod.mk.inj hok
    exact ⟨[], (List.append_nil _).symm, List.forall_mem_nil _, fun _ _ => ⟨s', rfl, h⟩⟩
  | cons t ts ih =>
    obtain ⟨hpath, hpaths⟩ := List.forall_mem_cons.mp hpaths
    rw [Setup.runFrom] at hok
    split at hok
    · exact absurd (Prod.mk.inj hok).2 (by simp)
    · rename_i mid hmid
      have hlater : mid.scratch.Later out.scratch := by
        have hfirst : w.first.scratch.Later mid.scratch := by
          have htask := Setup.later_runTask hcontent (Scratch.Underway.later h.first) total position
            t
          rw [hmid] at htask
          exact (Scratch.Underway.later h.first).trans htask
        have hrest := Setup.later_runFrom hcontent hfirst total (position + 1) ts
        rwa [hok] at hrest
      have hmidlimit : mid.scratch.issued ≤ limit := Nat.le_trans hlater.issued hlimit
      obtain ⟨skip, hposition, hskipped, habreast⟩ | ⟨hkept, hdone⟩ :=
        h.runTask_cases hsu hcontent hcontent' hpath hmid hmidlimit
      · obtain ⟨more, hmore, hpositions, hrun⟩ := ih habreast hpaths hok
        refine ⟨skip :: more, ?_, ?_, fun total' position' => ?_⟩
        · rw [hmore, hskipped, List.append_assoc, List.singleton_append]
        · refine List.forall_mem_cons.mpr ⟨Nat.le_of_eq hposition.symm, fun later hlater => ?_⟩
          exact Nat.le_of_succ_le (hpositions later hlater)
        · rw [List.map_cons, hposition, Plan.withoutFrom, if_pos List.mem_cons_self,
            Plan.withoutFrom_cons_of_lt (Nat.lt_succ_self position)]
          exact hrun total' position'
      · obtain ⟨mid', -, habreast⟩ := hdone total position
        obtain ⟨more, hmore, hpositions, -⟩ := ih habreast hpaths hok
        refine ⟨more, hkept ▸ hmore, fun skip hskip => Nat.le_of_succ_le (hpositions skip hskip),
          fun total' position' => ?_⟩
        obtain ⟨mid', hmid', habreast⟩ := hdone total' position'
        obtain ⟨more', hmore', -, hrun⟩ := ih habreast hpaths hok
        obtain rfl : more' = more := List.append_cancel_left (hmore'.symm.trans hmore)
        obtain ⟨out', hout', hend⟩ := hrun total' (position' + 1)
        have hkeeps : position ∉ more'.map Skipped.position := by
          intro hmem
          obtain ⟨skip, hskip, rfl⟩ := List.mem_map.mp hmem
          exact absurd (hpositions skip hskip) (Nat.not_succ_le_self _)
        rw [Plan.withoutFrom, if_neg hkeeps, Setup.runFrom, hmid']
        exact ⟨out', hout', hend⟩

end Tasks

omit [TimeScale T] [Spelled T] in
/-- Two runs begin abreast. The second may leave out some of the tasks. -/
theorem start (w : Twins) {source : Path}
    (hsource : ¬ w.first.own (source.lands w.first.start.here)) {ts ts' : Plan T}
    (hsub : ts'.Sublist ts) :
    w.Abreast (RunState.start source ts w.first.scratch w.first.start)
      (RunState.start source ts' w.other w.first.start) where
  first := w.first.ready.underway w.first.changed
  second := w.ready.underway w.first.changed
  agree := .refl _
  issued := w.issued
  registry := by
    refine ⟨fun name => ?_, .elsewhere hsource, rfl, (hsub.filterMap Task.output).subset, rfl⟩
    dsimp only [RunState.start, Registry.start, Registry.resolve?]
    rw [List.lookup_cons]
    split
    · exact .some (.elsewhere hsource)
    · exact .none
  tracks _ _ := Iff.rfl
  states := nofun
  states' := nofun
  steps := rfl
  skipped := rfl

end Twins.Abreast

/-! ## Whole runs -/

namespace Setup
variable {T : Type} [TimeScale T] [Spelled T] {su : Setup T} {ts : Plan T} {source output : Path}
  {scratch : Scratch} {files : Files}

/-- If the run of a plan succeeds, so does that of the plan without the tasks that it has skipped.
It makes as many steps and gives the same names, and skips nothing. The output holds the same then,
and so do all files but those of the scratch directory.

The tool is a function of the operation and of what its inputs hold, and the content source one of
the request. The paths of the plan are none that hold the random digits of either run. -/
theorem run_without_skipped (su : Setup T) (ts : Plan T) {source output : Path} (w : Twins)
    {render : Operation T → List (Option ByteArray) → Rendering} (hsu : su.Renders render)
    {answer : Request T → Find} {spare : Request T → Nat} {limit : Nat}
    (hcontent : su.content.Answers answer spare w.first limit)
    (hcontent' : su.content.Answers answer spare w.second limit)
    (hlimit : (su.reached ts source w.first.scratch w.first.start).scratch.issued ≤ limit)
    (hpaths : ∀ p ∈ source :: output :: ts.flatMap Task.paths,
      ¬ w.first.own (p.lands w.first.start.here))
    (hway : ∀ parent ∈ output.parent?, ∀ name ∈ parent.components, ∀ q,
      ¬ w.first.own (q ++ [name]))
    {report : Report}
    (hok : (su.run ts source output w.first.scratch w.first.start).answer = .ok report) :
    let rest := ts.without (report.skipped.map Skipped.position)
    let last := su.run ts source output w.first.scratch w.first.start
    let last' := su.run rest source output w.other w.first.start
    (∃ report', last'.answer = .ok report' ∧ report'.steps = report.steps ∧
        report'.produced = report.produced ∧ report'.skipped = []) ∧
      last'.state.files.readable output = last.state.files.readable output ∧
      ∀ p : Path, ¬ w.first.own (p.lands w.first.start.here) →
        last'.state.files.readable p = last.state.files.readable p := by
  intro rest last last'
  obtain ⟨hclearSource, hclear⟩ := List.forall_mem_cons.mp hpaths
  obtain ⟨hclearOutput, hclear⟩ := List.forall_mem_cons.mp hclear
  have hclear : ∀ t ∈ ts, ∀ p ∈ t.paths, ¬ w.first.own (p.lands w.first.start.here) :=
    fun t ht p hp => hclear p (List.mem_flatMap.mpr ⟨t, ht, hp⟩)
  obtain ⟨hsource, hrun, out, hfinal⟩ := reached_of_run_ok hok
  obtain ⟨cleaned, hanswer, hfiles⟩ := run_of_finalize hsource hrun hfinal
  obtain rfl := Except.ok.inj (hok.symm.trans hanswer)
  have hbegun := ((Twins.Abreast.start w hclearSource
    (Plan.withoutFrom_sublist _ 1 ts : rest.Sublist ts)).note_first
      [.began ts.length source su.tool.name]).note_second [.began rest.length source su.tool.name]
  obtain ⟨more, hmore, -, hrest⟩ := hbegun.runFrom_cases hsu hcontent hcontent' hclear hrun hlimit
  obtain ⟨s', hrun', habreast⟩ := hrest rest.length 1
  obtain ⟨out', hfinal', hagree⟩ := habreast.registry.current.finalize habreast.agree
    (Scratch.Underway.agree habreast.first).tree hclearOutput hway hfinal
  obtain rfl : more = (su.reached ts source w.first.scratch w.first.start).skipped := hmore.symm
  obtain ⟨cleaned', hanswer', hfiles'⟩ := run_of_finalize hsource hrun' hfinal'
  have hhere : out.here = w.first.start.here :=
    (Scratch.finalize_here hfinal).trans (Scratch.Underway.here_eq habreast.first)
  have hread {p : Path} (hp : ¬ w.first.own (p.lands w.first.start.here)) :
      last'.state.files.readable p = last.state.files.readable p := by
    rw [show last.state.files = _ from hfiles, show last'.state.files = _ from hfiles']
    exact Registry.readable_sweep_eq hagree habreast.states habreast.states'
      (hhere ▸ habreast.tracks) (hhere ▸ hp)
  exact ⟨⟨_, hanswer', habreast.steps, habreast.registry.produced, habreast.skipped⟩,
    hread hclearOutput, fun p hp => hread hp⟩

end Setup

/-! ## A patchy plan -/

/-- A tool that writes the name of its step and what its inputs hold. -/
def echo : MediaTool where
  name := "echo"
  run _ i fs :=
    match fs.write i.output (told i.step (i.inputs.map fs.readable)) with
    | .ok out => ⟨.ok (), out, []⟩
    | .error e => ⟨.error (.io e), fs, []⟩
where
  told (step : String) (reads : List (Option ByteArray)) : ByteArray :=
    reads.foldl (fun bytes read => bytes ++ " ".toUTF8 ++ read.getD .empty) step.toUTF8

theorem echo_renders {T : Type} [TimeScale T] [Spelled T] (content : ContentSource T)
    (font : Path) : (Setup.mk echo content font).Renders
      fun op reads => .writes (echo.told op.typeName reads) := by
  intro op step scratch files i sidecar? hrecipe n fs
  have hstep := (Operation.calls_of_recipe hrecipe).step
  unfold Rendering.Describes echo
  dsimp only
  rw [hstep]
  cases fs.write i.output (echo.told op.typeName (i.inputs.map fs.readable)) with
  | ok out => exact ⟨rfl, rfl⟩
  | error e => exact ⟨_, rfl⟩

/-- What is on the shelf for a request. -/
def shelfFind {T : Type} (request : Request T) : Find :=
  if request.query = "sea" then .copied "stock" "mp4" "waves".toUTF8 else .nothing

/-- A content source with one clip. -/
def shelf {T : Type} : ContentSource T where
  name := "shelf"
  fetch _ request s fs :=
    match shelfFind request with
    | .copied stem extension bytes =>
      match fs.write (s.next stem extension) bytes with
      | .ok out => ⟨.ok (some (s.next stem extension)), s.advance, out, []⟩
      | .error e => ⟨.error (.io e), s.advance, fs, []⟩
    | _ => ⟨.ok none, s, fs, []⟩

/-- The shelf answers as long as paths are not too long. -/
theorem shelf_answers {T : Type} (g : Ground) {limit : Nat}
    (hshort : ∀ n < limit, Files.unusable? (g.scratch.pathAt n "stock" "mp4") = none ∧
      (g.scratch.nameAt n "stock" "mp4").utf8ByteSize ≤ Files.nameLimit) :
    (shelf : ContentSource T).Answers shelfFind (fun _ => 0) g limit := by
  intro n request s fs hs
  unfold shelf shelfFind
  dsimp only
  split_ifs with hquery
  · refine ⟨⟨by decide, by decide⟩, ?_, fun hunderway hle => ?_⟩
    · dsimp only
      split
      · rfl
      · rfl
    · have hnext : s.next "stock" "mp4" = g.scratch.pathAt s.issued "stock" "mp4" :=
        hs.pathAt_eq ..
      obtain ⟨d, hd, hdir⟩ := Files.isDirectory_iff.mp g.ready.directory
      have htree := hunderway.agree.tree.1
      obtain ⟨husable, hname⟩ := hshort s.issued hle
      obtain ⟨out, hwrite⟩ := Files.exists_write_join (htree.locate hd)
        (htree.directories d hdir)
        (Scratch.isName_nameAt g.digits.hex.unmarked.slashless s.issued
          (by decide : '/' ∉ "stock".toList) (by decide))
        (hunderway.vacant s.issued "stock" "mp4" (Nat.le_refl _) (by decide) (by decide)) husable
        hname "waves".toUTF8
      have hwrite : fs.write (s.next "stock" "mp4") "waves".toUTF8 = .ok out := hnext ▸ hwrite
      dsimp only
      rw [hwrite]
      exact ⟨out, hwrite, rfl, rfl⟩
  · exact ⟨trivial, rfl, fun _ _ => ⟨rfl, rfl⟩⟩

def patchySetup : Setup Float := ⟨echo, shelf, ⟨"/font.ttf"⟩⟩

/-- Of eight tasks, one fetch finds nothing and has an insert that waits for it, one task is of an
unknown type, one text is empty and one image is missing. -/
def patchyPlan : Plan Float :=
  [⟨.fetchVideo ⟨"desert", [], 10, ""⟩, some "b1", []⟩,
    ⟨.overlayVideo ⟨5, some 9, "b1"⟩, none, []⟩,
    ⟨.unrecognized "sharpen" .null, some "b2", []⟩,
    ⟨.fetchVideo ⟨"sea", [], 10, ""⟩, some "b2", []⟩,
    ⟨.addTextOverlay ⟨"", "top", 24, "white", none, none, false, none, none, 0, 0, none, none⟩,
      none, []⟩,
    ⟨.concat ⟨[]⟩, some "y", [sourceName, "b2"]⟩,
    ⟨.addImageOverlay ⟨"/library/none.png", "top", none, none, 1⟩, none, []⟩,
    ⟨.resize ⟨640, none⟩, none, []⟩]

/-- The scratch directory of the desk with other digits. -/
def redrawnScratch : Scratch := { deskScratch with uid := fun _ => "f00dcafe" }

theorem redrawnScratch_ready : redrawnScratch.Ready desk := by
  apply Scratch.Ready.of_empty (d := ["scratch"])
  · rfl
  · decide +kernel
  · intro name
    simp [desk, Files.at?, List.lookup_cons]
  · intro n
    exact show '/' ∉ "f00dcafe".toList by decide

def deskTwins : Twins where
  first := {
    scratch := deskScratch
    start := desk
    own := fun q => deskScratch.Owns [] q ∨ redrawnScratch.Owns [] q
    changed := fun q => deskScratch.Owns [] q ∨ redrawnScratch.Owns [] q
    digits := ⟨Scratch.hex_of_all fun _ => show "0a1b2c3d".toList.all _ = true by decide,
      fun _ => show "0a1b2c3d".length = 8 by decide⟩
    ready := deskScratch_ready
    owns := fun _ => .inl
    own_changed := fun _ => id }
  other := redrawnScratch
  dir := rfl
  issued := Nat.le_refl _
  digits := ⟨Scratch.hex_of_all fun _ => show "f00dcafe".toList.all _ = true by decide,
    fun _ => show "f00dcafe".length = 8 by decide⟩
  ready := redrawnScratch_ready
  owns := fun _ => .inr

theorem deskTwins_own {q : Place} (h : deskTwins.first.own q) :
    ∃ name, '_' ∈ String.toList name ∧ q = ["scratch", name] := by
  rcases h with hown | hown
  · exact hown.exists_name deskTwins.first.digits.hex
  · exact hown.exists_name deskTwins.digits.hex

/-- The run of the patchy plan skips five tasks. Without them and with other digits it comes to the
same. -/
theorem patchyPlan_without_skipped :
    let last := patchySetup.run patchyPlan ⟨"/in.mp4"⟩ ⟨"/out/final.mp4"⟩ deskScratch desk
    let last' := patchySetup.run (patchyPlan.without [1, 2, 3, 5, 7]) ⟨"/in.mp4"⟩
      ⟨"/out/final.mp4"⟩ redrawnScratch desk
    (last.answer.toOption.map fun report =>
        (report.steps, report.produced, report.skipped.map Skipped.position)) =
          some (3, ["b2", "y"], [1, 2, 3, 5, 7]) ∧
      last.state.files.readable ⟨"/out/final.mp4"⟩ = some "resize concat src waves".toUTF8 ∧
      (∃ report', last'.answer = .ok report' ∧ report'.steps = 3 ∧
        report'.produced = ["b2", "y"] ∧ report'.skipped = []) ∧
      last'.state.files.readable ⟨"/out/final.mp4"⟩ =
        some "resize concat src waves".toUTF8 := by
  intro last last'
  have hlast : (last.answer.toOption.map fun report =>
        (report.steps, report.produced, report.skipped.map Skipped.position)) =
          some (3, ["b2", "y"], [1, 2, 3, 5, 7]) ∧
      last.state.files.readable ⟨"/out/final.mp4"⟩ = some "resize concat src waves".toUTF8 := by
    decide +kernel
  have hlimit : (patchySetup.reached patchyPlan ⟨"/in.mp4"⟩ deskScratch desk).scratch.issued ≤ 8 :=
    by decide +kernel
  have hpaths : ∀ p ∈ (⟨"/in.mp4"⟩ : Path) :: ⟨"/out/final.mp4"⟩ :: patchyPlan.flatMap Task.paths,
      ¬ deskTwins.first.own (p.lands deskTwins.first.start.here) := by
    intro p hp hown
    have hplaces : ∀ p ∈ (⟨"/in.mp4"⟩ : Path) :: ⟨"/out/final.mp4"⟩ ::
        patchyPlan.flatMap Task.paths, (p.lands []).head? ≠ some "scratch" := by decide +kernel
    obtain ⟨name, -, hplace⟩ := deskTwins_own hown
    exact hplaces p hp (congrArg List.head? hplace)
  have hway : ∀ parent ∈ (⟨"/out/final.mp4"⟩ : Path).parent?, ∀ name ∈ parent.components, ∀ q,
      ¬ deskTwins.first.own (q ++ [name]) := by
    intro parent hparent name hname q hown
    have hnames : ∀ parent ∈ (⟨"/out/final.mp4"⟩ : Path).parent?, ∀ name ∈ parent.components,
        '_' ∉ name.toList := by decide +kernel
    obtain ⟨name', hmem, hplace⟩ := deskTwins_own hown
    obtain rfl : name = name' := by simpa using congrArg List.getLast? hplace
    exact hnames parent hparent name hname hmem
  have hshort : ∀ n < 8, Files.unusable? (deskScratch.pathAt n "stock" "mp4") = none ∧
      (deskScratch.nameAt n "stock" "mp4").utf8ByteSize ≤ Files.nameLimit := by decide +kernel
  have hshort' : ∀ n < 8, Files.unusable? (redrawnScratch.pathAt n "stock" "mp4") = none ∧
      (redrawnScratch.nameAt n "stock" "mp4").utf8ByteSize ≤ Files.nameLimit := by decide +kernel
  obtain ⟨hreport, houtput⟩ := hlast
  refine ⟨hreport, houtput, ?_⟩
  obtain ⟨report, hanswer, hvalues⟩ := Option.map_eq_some_iff.mp hreport
  obtain ⟨hsteps, hvalues⟩ := Prod.mk.inj hvalues
  obtain ⟨hproduced, hskipped⟩ := Prod.mk.inj hvalues
  have hok : last.answer = .ok report := by
    cases hcases : last.answer with
    | error e => simp [hcases, Except.toOption] at hanswer
    | ok report' => simpa [hcases, Except.toOption] using hanswer
  have hfirst : deskScratch = deskTwins.first.scratch := rfl
  have hstart : desk = deskTwins.first.start := rfl
  have hother : redrawnScratch = deskTwins.other := rfl
  simp only [last, last'] at hok houtput ⊢
  rw [hfirst, hstart] at hlimit hok houtput
  rw [hother, hstart, ← hskipped, ← houtput]
  obtain ⟨⟨report', hanswer', hsteps', hproduced', hskipped'⟩, hread, -⟩ :=
    Setup.run_without_skipped patchySetup patchyPlan deskTwins (echo_renders _ _)
      (shelf_answers deskTwins.first hshort) (shelf_answers deskTwins.second hshort') hlimit hpaths
      hway hok
  exact ⟨⟨report', hanswer', hsteps'.trans hsteps, hproduced'.trans hproduced, hskipped'⟩, hread⟩

end Montage
