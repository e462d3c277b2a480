import Montage.Proofs.Content.Search
import Montage.Proofs.Media.Recipe
import Montage.Proofs.Run.Fetch
import Montage.Proofs.Run.Registry
import Montage.Proofs.Run.Transform

/-!
# Nothing is written that is not tracked

While a run goes on, the files differ from those at its start only where a file leads that the run
has to remove. This rests on three things: the scratch directory gives out paths where nothing is,
the media tool writes at most its output, and the content source writes at most a file of the
scratch directory, whose path it gives.
-/

namespace Montage

/-- A call writes at most its output, in whole or in part. -/
def MediaTool.WritesOutput (tool : MediaTool) : Prop :=
  ∀ (n : Nat) (i : Invocation) (fs : Files), fs.Touches (tool.run n i fs).files i.output

/-- Between `fs` and `out` no more has happened than that a file was written at the path that was
found, if that is in the scratch directory. Then it is one that the directory gave out. -/
def Scratch.Places (scratch : Scratch) (fs : Files) (found : Option Path) (out : Files) : Prop :=
  match found with
  | some p =>
    if p.isUnder scratch.dir then scratch.Gives p ∧ fs.Touches out p else out = fs
  | none => out = fs

/-- A request writes at most a file at a fresh path of the scratch directory, which it gives. -/
def ContentSource.PlacesIn {T : Type} (source : ContentSource T) (scratch : Scratch) : Prop :=
  ∀ n request s fs, scratch.Later s →
    scratch.Later (source.fetch n request s fs).scratch ∧
      scratch.Places fs (source.fetch n request s fs).answer.toOption.join
        (source.fetch n request s fs).files

namespace ContentSource
variable {T : Type} {content : ContentSource T} {scratch s : Scratch}

theorem PlacesIn.searchFrom (h : content.PlacesIn scratch) (template : Request T) (asked : Nat)
    (fs : Files) (hs : scratch.Later s) (queries : List String) :
    let search := content.searchFrom template asked s fs queries
    scratch.Later search.scratch ∧ scratch.Places fs search.found search.files := by
  induction queries generalizing asked s fs with
  | nil => exact ⟨hs, rfl⟩
  | cons query queries ih =>
    intro search
    obtain ⟨hlater, hplaces⟩ := h asked { template with query } s fs hs
    cases hreply : (content.fetch asked { template with query } s fs).found? with
    | some p =>
      obtain ⟨hfound, hscratch, hfiles, -⟩ := searchFrom_cons_of_gives queries hreply
      rw [hfound, hscratch, hfiles, ← hreply]
      exact ⟨hlater, hplaces⟩
    | none =>
      obtain ⟨hfound, hscratch, hfiles, -⟩ := searchFrom_cons_of_misses queries hreply
      rw [hfound, hscratch, hfiles]
      have hkeep : (content.fetch asked { template with query } s fs).files = fs := by
        rw [Fetched.found?] at hreply
        rwa [hreply] at hplaces
      rw [hkeep]
      exact ih (asked + 1) fs hlater

theorem PlacesIn.search (h : content.PlacesIn scratch) (template : Request T)
    (alternatives : List String) (asked : Nat) (fs : Files) (hs : scratch.Later s) :
    let search := content.search template alternatives asked s fs
    scratch.Later search.scratch ∧ scratch.Places fs search.found search.files := by
  intro search
  obtain ⟨hfound, hscratch, hfiles, -⟩ := content.search_eq template alternatives asked s fs
  rw [hfound, hscratch, hfiles]
  exact h.searchFrom template asked fs hs _

end ContentSource

/-- What a run has made of the files `start`, as far as it has come. -/
structure Tidy (scratch : Scratch) (start : Files) (source : Path) (r : Registry) (s : Scratch)
    (fs : Files) : Prop where
  tree : start.SameTree fs
  later : scratch.Later s
  /-- Every change is where a file leads that has to be removed. -/
  changed : ∀ q, fs.at? q ≠ start.at? q → ∃ t ∈ r.transients, fs.locate t.path = .ok q
  tracked : ∀ t ∈ r.transients, t.state = .produced ∧ scratch.Gives t.path
  current : r.current = source ∨ scratch.Gives r.current

namespace Tidy
variable {scratch s s' : Scratch} {start fs out : Files} {source p : Path} {r : Registry}

theorem initial (scratch : Scratch) (start : Files) (source : Path) (declared : List String) :
    Tidy scratch start source (.start source declared) scratch start where
  tree := .refl start
  later := .refl scratch
  changed _ hq := absurd rfl hq
  tracked _ ht := absurd ht List.not_mem_nil
  current := .inl rfl

theorem advance (h : Tidy scratch start source r s fs) (hs : scratch.Later s') :
    Tidy scratch start source r s' fs :=
  ⟨h.tree, hs, h.changed, h.tracked, h.current⟩

theorem track (h : Tidy scratch start source r s fs) (hp : scratch.Gives p) :
    Tidy scratch start source (r.track p) s fs where
  tree := h.tree
  later := h.later
  changed q hq := by
    obtain ⟨t, ht, hloc⟩ := h.changed q hq
    exact ⟨t, Registry.mem_track_of_mem p ht, hloc⟩
  tracked t ht := by
    rcases Registry.mem_track ht with hold | rfl
    · exact h.tracked t hold
    · exact ⟨rfl, hp⟩
  current := by
    rw [Registry.track_current]
    exact h.current

/-- The path itself is tracked: no other that is given out is written like it. -/
theorem exists_tracked (h : Tidy scratch start source r s fs) (hready : scratch.Ready start)
    (hp : scratch.Gives p) : ∃ t ∈ (r.track p).transients, t.path = p := by
  obtain ⟨t, ht, hsame⟩ := r.exists_mem_track p
  exact ⟨t, ht, hready.eq_of_same ((h.track hp).tracked t ht).2 hp hsame⟩

/-- A tracked file may be written. -/
theorem touch (h : Tidy scratch start source r s fs) (hp : ∃ t ∈ r.transients, t.path = p)
    (hout : fs.Touches out p) : Tidy scratch start source r s out where
  tree := h.tree.trans hout.sameTree
  later := h.later
  changed q hq := by
    by_cases hsame : out.at? q = fs.at? q
    · rw [hsame] at hq
      obtain ⟨t, ht, hloc⟩ := h.changed q hq
      exact ⟨t, ht, hout.sameTree.locate_iff.mpr hloc⟩
    · obtain ⟨t, ht, rfl⟩ := hp
      exact ⟨t, ht, hout.sameTree.locate_iff.mpr (hout.changed hsame)⟩
  tracked := h.tracked
  current := h.current

theorem block (h : Tidy scratch start source r s fs) (name : String) :
    Tidy scratch start source (r.block name) s fs := by
  refine ⟨h.tree, h.later, ?_, ?_, ?_⟩
  · rw [Registry.block_transients]
    exact h.changed
  · rw [Registry.block_transients]
    exact h.tracked
  · rw [Registry.block_current]
    exact h.current

theorem publish (h : Tidy scratch start source r s fs) (name? : Option String)
    (effect : ChainEffect) (hp : effect = .mainChain → scratch.Gives p) :
    Tidy scratch start source (r.publish name? p effect) s fs := by
  refine ⟨h.tree, h.later, ?_, ?_, ?_⟩
  · rw [Registry.publish_transients]
    exact h.changed
  · rw [Registry.publish_transients]
    exact h.tracked
  · cases effect with
    | mainChain =>
      rw [Registry.publish_mainChain_current]
      exact .inr (hp rfl)
    | sideArtifact =>
      rw [Registry.publish_sideArtifact_current]
      exact h.current

end Tidy

/-! ## The steps of a run -/

/-- A run that has kept its files tidy so far. -/
def RunState.Tidy {T : Type} (scratch : Scratch) (start : Files) (source : Path) (s : RunState T) :
    Prop :=
  Montage.Tidy scratch start source s.registry s.scratch s.files

theorem RunState.Tidy.publish {T : Type} {scratch : Scratch} {start : Files} {source p : Path}
    {s : RunState T} (h : s.Tidy scratch start source) (name? : Option String)
    (effect : ChainEffect) (hp : effect = .mainChain → scratch.Gives p) :
    (s.publish name? p effect).Tidy scratch start source :=
  Montage.Tidy.publish h name? effect hp

namespace Setup
variable {T : Type} {su : Setup T} {scratch : Scratch} {start : Files} {source : Path}
  {s : RunState T}

theorem tidy_invoke (htool : su.tool.WritesOutput) (h : s.Tidy scratch start source)
    (position : Nat) {i : Invocation} (hi : ∃ t ∈ s.registry.transients, t.path = i.output) :
    (su.invoke position i s).1.Tidy scratch start source :=
  Montage.Tidy.touch h hi (htool s.calls i s.files)

theorem tidy_fetch (hready : scratch.Ready start) (hcontent : su.content.PlacesIn scratch)
    (h : s.Tidy scratch start source) (t : Task T) :
    (su.fetch t s).1.Tidy scratch start source := by
  have hsought := sought su t s
  generalize su.fetch t s = result at hsought ⊢
  obtain ⟨out, outcome⟩ := result
  have hsearched {request : Request T} {alternatives : List String} {name : String}
      {search : Search T} (hseeks : su.Seeks t s request alternatives name search) :
      scratch.Later search.scratch ∧ scratch.Places s.files search.found search.files := by
    rw [← hseeks.search]
    exact hcontent.search request alternatives s.asked s.files h.later
  cases hsought with
  | aside _ => exact h
  | @missed _ _ name search hseeks hfound =>
    obtain ⟨hlater, hplaces⟩ := hsearched hseeks
    rw [hfound] at hplaces
    have hkeep : search.files = s.files := hplaces
    refine Montage.Tidy.block ?_ name
    rw [searched, hkeep]
    exact Montage.Tidy.advance h hlater
  | @found _ _ name search p r hseeks hfound hr =>
    obtain ⟨hlater, hplaces⟩ := hsearched hseeks
    rw [hfound] at hplaces
    simp only [Scratch.Places] at hplaces
    refine Montage.Tidy.publish ?_ (some name) .sideArtifact nofun
    rw [hr, hlater.dir]
    split_ifs with hunder
    · rw [if_pos hunder] at hplaces
      obtain ⟨hgives, htouch⟩ := hplaces
      have htrack := (Montage.Tidy.track h hgives).touch
        (Montage.Tidy.exists_tracked h hready hgives) htouch
      exact htrack.advance hlater
    · rw [if_neg hunder] at hplaces
      rw [searched, hplaces]
      exact Montage.Tidy.advance h hlater

theorem tidy_prepared (h : s.Tidy scratch start source) {t : Task T} {k : Kind} {position : Nat}
    {step : StepFiles} (hgiven : Given t k position s step) :
    scratch.Gives step.output ∧ (prepared t step s).Tidy scratch start source := by
  have hgives : scratch.Gives step.output := by
    rw [hgiven.output]
    exact h.later.gives_next (by cases k <;> decide) (by decide)
  exact ⟨hgives, (Montage.Tidy.track h hgives).advance h.later.advance⟩

variable [TimeScale T] [Spelled T]

/-- A sidecar has a path that the directory gives. -/
theorem gives_sidecar (h : s.Tidy scratch start source) {op : Operation T} {step : StepFiles}
    {font : Path} {fs : Files} {i : Invocation} {sidecar : Sidecar}
    (hrecipe : op.recipe step font s.scratch.advance fs = .call i (some sidecar)) :
    scratch.Gives sidecar.path := by
  have hsidecar := (Operation.calls_of_recipe hrecipe).sidecar
  obtain hp | hp := Operation.path_of_sidecar? hsidecar.symm
  · rw [hp]
    exact h.later.advance.gives_next (by decide) (by decide)
  · rw [hp]
    exact h.later.advance.gives_next (by decide) (by decide)

/-- With its path taken and its sidecar written, a step calls the media tool. -/
theorem tidy_called (hready : scratch.Ready start) (htool : su.tool.WritesOutput)
    (h : s.Tidy scratch start source) {t : Task T} {k : Kind} {position : Nat} {step : StepFiles}
    {i : Invocation} {sidecar? : Option Sidecar} {ready : RunState T}
    (hgiven : Given t k position s step)
    (hrecipe : t.op.recipe step su.font s.scratch.advance s.files = .call i sidecar?)
    (hwritten : writeSidecar position sidecar? (prepared t step s) = (ready, .ok ())) :
    (su.invoke position i ready).1.Tidy scratch start source := by
  obtain ⟨hgives, hprepared⟩ := tidy_prepared h hgiven
  have houtput := (Operation.calls_of_recipe hrecipe).output
  obtain ⟨u, hu, hpath⟩ := Montage.Tidy.exists_tracked h hready hgives
  obtain ⟨rfl, rfl⟩ | ⟨sidecar, files, rfl, hwrite, rfl⟩ := writeSidecar_ok hwritten
  · exact tidy_invoke htool hprepared position ⟨u, hu, hpath.trans houtput.symm⟩
  · have hsidecar := gives_sidecar h hrecipe
    have htaken := (Montage.Tidy.track hprepared hsidecar).advance hprepared.later.advance
    have hnoted : ({ (prepared t step s).take sidecar.path with files }.note
        [.wrote position sidecar.path]).Tidy scratch start source :=
      htaken.touch (Montage.Tidy.exists_tracked hprepared hready hsidecar)
        (Files.touches_of_write hwrite)
    exact tidy_invoke htool hnoted position
      ⟨u, Registry.mem_track_of_mem sidecar.path hu, hpath.trans houtput.symm⟩

theorem tidy_transform (hready : scratch.Ready start) (htool : su.tool.WritesOutput)
    (h : s.Tidy scratch start source) (t : Task T) (k : Kind) (position : Nat) :
    (su.transform t k position s).1.Tidy scratch start source := by
  have htransformed := transformed su t k position s
  generalize su.transform t k position s = result at htransformed ⊢
  obtain ⟨out, outcome⟩ := result
  cases htransformed with
  | missed _ => exact h
  | lacking _ _ => exact h
  | pointless hgiven _ => exact (tidy_prepared h hgiven).2
  | refused hgiven _ => exact (tidy_prepared h hgiven).2
  | unwritten hgiven hrecipe _ =>
    obtain ⟨-, hprepared⟩ := tidy_prepared h hgiven
    exact (Montage.Tidy.track hprepared (gives_sidecar h hrecipe)).advance hprepared.later.advance
  | failed hgiven hrecipe hwritten _ => exact tidy_called hready htool h hgiven hrecipe hwritten
  | done hgiven hrecipe hwritten _ =>
    have hcalled := tidy_called hready htool h hgiven hrecipe hwritten
    exact RunState.Tidy.publish hcalled t.output .mainChain fun _ => (tidy_prepared h hgiven).1

theorem tidy_act (hready : scratch.Ready start) (htool : su.tool.WritesOutput)
    (hcontent : su.content.PlacesIn scratch) (h : s.Tidy scratch start source) (t : Task T)
    (k : Kind) (position : Nat) : (su.act t k position s).1.Tidy scratch start source := by
  unfold act
  split_ifs
  · exact tidy_fetch hready hcontent h t
  · exact tidy_transform hready htool h t k position

theorem tidy_runTask (hready : scratch.Ready start) (htool : su.tool.WritesOutput)
    (hcontent : su.content.PlacesIn scratch) (h : s.Tidy scratch start source)
    (total position : Nat) (t : Task T) :
    (su.runTask total position t s).1.Tidy scratch start source := by
  cases hkind : t.kind? with
  | none =>
    rw [runTask_of_unknown su hkind]
    exact h
  | some k =>
    have hstarted : (s.note [.started position total t]).Tidy scratch start source := h
    have hact := tidy_act hready htool hcontent hstarted t k position
    rw [runTask_of_kind su hkind]
    generalize su.act t k position (s.note [.started position total t]) = result at hact ⊢
    obtain ⟨out, outcome⟩ := result
    cases outcome with
    | done => exact hact
    | skipped reason => exact hact
    | failed e => exact hact

/-- Every plan keeps the files tidy, however far it comes. -/
theorem tidy_runFrom (hready : scratch.Ready start) (htool : su.tool.WritesOutput)
    (hcontent : su.content.PlacesIn scratch) (h : s.Tidy scratch start source)
    (total position : Nat) (ts : Plan T) :
    (su.runFrom total position ts s).1.Tidy scratch start source := by
  induction ts generalizing position s with
  | nil => exact h
  | cons t ts ih =>
    have htask := tidy_runTask hready htool hcontent h total position t
    unfold runFrom
    split
    · rename_i s' e hrun
      rw [hrun] at htask
      exact htask
    · rename_i s' hrun
      rw [hrun] at htask
      exact ih htask (position + 1)

end Setup

end Montage
