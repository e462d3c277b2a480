import Montage.Proofs.Scratch
import Montage.Run.Registry

/-!
# Tracking and sweeping

What the updates of a registry do to the files that it has to remove, and what a sweep leaves: at
the places of the files that were to be removed nothing can be read any more, and all other places
are as they were.
-/

namespace Montage

namespace Registry

/-! ## Tracking -/

theorem mem_track {r : Registry} {p : Path} {t : Transient} (h : t ∈ (r.track p).transients) :
    t ∈ r.transients ∨ t = ⟨p, .produced⟩ := by
  unfold track at h
  split_ifs at h
  · exact .inl h
  · simpa using h

theorem mem_track_of_mem {r : Registry} (p : Path) {t : Transient} (h : t ∈ r.transients) :
    t ∈ (r.track p).transients := by
  unfold track
  split_ifs
  · exact h
  · exact List.mem_append_left _ h

/-- A path that is tracked is in the registry, at least as another path that is written alike. -/
theorem exists_mem_track (r : Registry) (p : Path) :
    ∃ t ∈ (r.track p).transients, t.path.same p = true := by
  unfold track
  split_ifs with h
  · exact List.any_eq_true.mp h
  · exact ⟨⟨p, .produced⟩, by simp, by simp [Path.same]⟩

@[simp] theorem track_names (r : Registry) (p : Path) : (r.track p).names = r.names := by
  unfold track
  split_ifs <;> rfl

@[simp] theorem track_current (r : Registry) (p : Path) : (r.track p).current = r.current := by
  unfold track
  split_ifs <;> rfl

theorem track_produced (r : Registry) (p : Path) : (r.track p).produced = r.produced := by
  unfold track
  split_ifs <;> rfl

theorem track_declared (r : Registry) (p : Path) : (r.track p).declared = r.declared := by
  unfold track
  split_ifs <;> rfl

theorem track_blocked (r : Registry) (p : Path) : (r.track p).blocked = r.blocked := by
  unfold track
  split_ifs <;> rfl

@[simp] theorem block_names (r : Registry) (name : String) : (r.block name).names = r.names := by
  unfold block
  split_ifs <;> rfl

@[simp] theorem block_current (r : Registry) (name : String) :
    (r.block name).current = r.current := by
  unfold block
  split_ifs <;> rfl

theorem block_produced (r : Registry) (name : String) :
    (r.block name).produced = r.produced := by
  unfold block
  split_ifs <;> rfl

theorem block_declared (r : Registry) (name : String) :
    (r.block name).declared = r.declared := by
  unfold block
  split_ifs <;> rfl

@[simp] theorem block_transients (r : Registry) (name : String) :
    (r.block name).transients = r.transients := by
  unfold block
  split_ifs <;> rfl

@[simp] theorem publish_transients (r : Registry) (name? : Option String) (p : Path)
    (effect : ChainEffect) : (r.publish name? p effect).transients = r.transients := by
  cases name? <;> cases effect <;> rfl

@[simp] theorem publish_mainChain_current (r : Registry) (name? : Option String) (p : Path) :
    (r.publish name? p .mainChain).current = p := by
  cases name? <;> rfl

@[simp] theorem publish_sideArtifact_current (r : Registry) (name? : Option String) (p : Path) :
    (r.publish name? p .sideArtifact).current = r.current := by
  cases name? <;> rfl

/-- What is still to be removed once the output is kept: all that is not written like it. -/
theorem mem_persist_produced {r : Registry} {p : Path} {t : Transient} :
    t ∈ (r.persist p).transients ∧ t.state = .produced ↔
      t ∈ r.transients ∧ t.state = .produced ∧ t.path.same p = false := by
  unfold persist
  simp only [List.mem_map]
  constructor
  · rintro ⟨⟨u, hu, rfl⟩, hstate⟩
    split_ifs at hstate ⊢ with hsame
    exact ⟨hu, hstate, by simpa using hsame⟩
  · rintro ⟨ht, hstate, hsame⟩
    exact ⟨⟨t, ht, by simp [hsame]⟩, hstate⟩

/-! ## Sweeping -/

/-- A sweep begins with its first file, if that is to be removed. -/
theorem sweep_cons (fs : Files) (t : Transient) (ts : List Transient) :
    ∃ out, (sweep fs (t :: ts)).files = (sweep out ts).files ∧
      (t.state = .produced → fs.Clears out t.path) ∧ (t.state ≠ .produced → out = fs) := by
  by_cases ht : t.state = .produced
  · rcases Scratch.discard_cases t.path fs with ⟨out, hdiscard, hclears⟩ | ⟨e, hdiscard, hclears⟩
    · refine ⟨out, ?_, fun _ => hclears, fun hne => absurd ht hne⟩
      simp only [sweep, ht, if_true, hdiscard]
    · refine ⟨fs, ?_, fun _ => hclears, fun _ => rfl⟩
      simp only [sweep, ht, if_true, hdiscard]
  · refine ⟨fs, ?_, fun h => absurd h ht, fun _ => rfl⟩
    simp only [sweep, if_neg ht]

theorem sweep_sameTree (fs : Files) (ts : List Transient) : fs.SameTree (sweep fs ts).files := by
  induction ts generalizing fs with
  | nil => exact .refl fs
  | cons t ts ih =>
    obtain ⟨out, hout, hclears, hkeep⟩ := sweep_cons fs t ts
    rw [hout]
    by_cases ht : t.state = .produced
    · exact (hclears ht).sameTree.trans (ih out)
    · rw [hkeep ht]
      exact ih fs

/-- A place that no file to be removed leads to is left alone. -/
theorem at?_sweep {fs : Files} {ts : List Transient} {q : Place}
    (h : ∀ t ∈ ts, t.state = .produced → fs.locate t.path ≠ .ok q) :
    (sweep fs ts).files.at? q = fs.at? q := by
  induction ts generalizing fs with
  | nil => rfl
  | cons t ts ih =>
    rw [List.forall_mem_cons] at h
    obtain ⟨out, hout, hclears, hkeep⟩ := sweep_cons fs t ts
    rw [hout]
    by_cases ht : t.state = .produced
    · rw [ih, (hclears ht).elsewhere q (h.1 ht)]
      intro u hu hstate hq
      exact h.2 u hu hstate ((hclears ht).sameTree.locate_iff.mp hq)
    · rw [hkeep ht]
      exact ih h.2

theorem contents_sweep_of_none {fs : Files} (ts : List Transient) {q : Place}
    (hq : fs.contents q = none) : (sweep fs ts).files.contents q = none := by
  induction ts generalizing fs with
  | nil => exact hq
  | cons t ts ih =>
    obtain ⟨out, hout, hclears, hkeep⟩ := sweep_cons fs t ts
    rw [hout]
    by_cases ht : t.state = .produced
    · exact ih ((hclears ht).contents_eq_none_of_none hq)
    · rw [hkeep ht]
      exact ih hq

/-- Where a file to be removed leads, nothing can be read after the sweep. -/
theorem contents_sweep {fs : Files} {ts : List Transient} {t : Transient} {q : Place} (ht : t ∈ ts)
    (hstate : t.state = .produced) (hq : fs.locate t.path = .ok q) :
    (sweep fs ts).files.contents q = none := by
  induction ts generalizing fs with
  | nil => exact absurd ht List.not_mem_nil
  | cons u ts ih =>
    obtain ⟨out, hout, hclears, hkeep⟩ := sweep_cons fs u ts
    rw [hout]
    rcases List.mem_cons.mp ht with rfl | ht
    · exact contents_sweep_of_none ts ((hclears hstate).contents_eq_none hq)
    · by_cases hu : u.state = .produced
      · exact ih ht ((hclears hu).sameTree.locate_iff.mpr hq)
      · rw [hkeep hu]
        exact ih ht hq

end Registry

end Montage
