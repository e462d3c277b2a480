import Montage.Proofs.Run.Abreast

/-!
# Closing abreast

If the final copy of one of two runs abreast succeeds, that of the other does, and writes the same.
Behind the sweeps what lies elsewhere than in the places of the scratch directory is the same in
both.
-/

namespace Montage

namespace Files
variable {own : Place → Prop} {a b : Files} {p p' dest : Path}

/-- What is there stays readable when directories are made. -/
theorem Paved.readable_eq (h : a.Paved b) (hp : a.holds p = true) :
    b.readable p = a.readable p := by
  obtain ⟨q, e, hq, -⟩ := holds_iff.mp hp
  rw [readable_of_locate hq, readable_of_locate (h.grows.locate hq), h.contents_eq]

/-- What can be copied elsewhere in one can be copied in the other, from a path that holds the
same. -/
theorem Agree.copy (h : a.Agree own b) (hdest : ¬ own (dest.lands a.here))
    (hread : b.readable p' = a.readable p) (hplace : b.samePlace p' dest = a.samePlace p dest)
    {out : Files} (hcopy : a.copy p dest = .ok out) :
    ∃ out', b.copy p' dest = .ok out' ∧ out.Agree own out' := by
  obtain ⟨bytes, hbytes, hwrite⟩ := copy_eq_ok hcopy
  have hbytes' : b.read p' = .ok bytes := by
    unfold readable at hread
    rw [hbytes] at hread
    cases hb : b.read p' with
    | ok c =>
      rw [hb] at hread
      exact congrArg Except.ok (Option.some.inj hread)
    | error e =>
      rw [hb] at hread
      exact absurd hread nofun
  rw [← hplace] at hwrite
  obtain ⟨out', hwrite', hout⟩ := h.write hdest hwrite
  refine ⟨out', ?_, hout⟩
  unfold Files.copy
  rw [hbytes']
  exact hwrite'

end Files

/-! ## The final copy -/

namespace Scratch
variable {s t : Scratch} {start fs out : Files} {p artifact dest : Path}

theorem Spent.gives (h : s.Spent t p) : s.Gives p := by
  obtain ⟨n, stem, extension, hn, -, hstem, hextension, rfl⟩ := h
  exact ⟨n, stem, extension, hn, hstem, hextension.2, rfl⟩

/-- What is at a path that was given out can be read: no directory comes to be there. -/
theorem Spent.holds_eq (h : s.Spent t p) (hready : s.Ready start) (htree : start.SameTree fs) :
    fs.holds p = (fs.readable p).isSome := by
  refine Files.holds_eq_isSome_readable fun q hq hdir => ?_
  have hnone := hready.at?_eq_none h.gives htree.1 hq
  rw [htree.2.directories q hdir] at hnone
  exact absurd hnone nofun

/-- A final copy that succeeds leaves an artifact that is written like its destination alone, and
copies any other behind the directories on the way. -/
theorem finalize_eq_ok : finalize artifact dest fs = (.ok (), out) ↔
    fs.holds artifact = true ∧ (artifact.same dest = true ∧ out = fs ∨
      artifact.same dest = false ∧ ∃ paved, makeWay dest fs = (.ok (), paved) ∧
        paved.copy artifact dest = .ok out) := by
  unfold finalize
  cases hholds : fs.holds artifact with
  | false => simp
  | true =>
    cases hsame : artifact.same dest with
    | true => simp [eq_comm]
    | false =>
      obtain ⟨made, paved⟩ := makeWay dest fs
      cases made with
      | error e => simp
      | ok u =>
        dsimp only
        cases hcopy : paved.copy artifact dest with
        | error e => simp [hcopy]
        | ok copied => simp [hcopy]

theorem finalize_here (h : finalize artifact dest fs = (.ok (), out)) : out.here = fs.here := by
  obtain ⟨-, ⟨-, rfl⟩ | ⟨-, paved, bytes, hpaved, -, hwrite⟩⟩ := finalize_ok h
  · rfl
  · exact (Files.touches_of_write hwrite).here.trans hpaved.here

end Scratch

namespace Twins
variable {w : Twins} {s s' : Scratch} {fs fs' out : Files} {p p' dest : Path}

/-- What is alike is there in both or in neither. -/
theorem Alike.holds_eq (h : w.Alike s fs s' fs' p p') (hagree : fs.Agree w.first.own fs')
    (htree : w.first.start.SameTree fs) : fs'.holds p' = fs.holds p := by
  cases h with
  | elsewhere hown => exact hagree.holds_eq (htree.1.here ▸ hown)
  | taken hspent hspent' hread =>
    rw [hspent.holds_eq w.first.ready htree, hspent'.holds_eq w.ready (htree.trans hagree.tree),
      hread]

/-- What is alike is written like a path elsewhere in both or in neither. -/
theorem Alike.same_eq (h : w.Alike s fs s' fs' p p')
    (hdest : ¬ w.first.own (dest.lands w.first.start.here)) : p'.same dest = p.same dest := by
  have hunlike {x : Path} (hx : w.first.own (x.lands w.first.start.here)) :
      x.same dest = false := by
    rw [← Bool.not_eq_true]
    exact fun hsame => hdest (Path.lands_eq_of_same hsame _ ▸ hx)
  cases h with
  | elsewhere hown => rfl
  | taken hspent hspent' hread =>
    rw [hunlike (w.first.owns _ (hspent.owns _)), hunlike (w.owns _ (hspent'.owns _))]

/-- What is alike is at the place of a path elsewhere in both or in neither. -/
theorem Alike.samePlace_eq (h : w.Alike s fs s' fs' p p')
    (hdest : ¬ w.first.own (dest.lands w.first.start.here)) {a b : Files}
    (hab : a.Agree w.first.own b) (hhere : a.here = w.first.start.here) :
    b.samePlace p' dest = a.samePlace p dest := by
  have hapart {c : Files} (hc : c.here = w.first.start.here) {x : Path}
      (hx : w.first.own (x.lands w.first.start.here)) : c.samePlace x dest = false := by
    rw [← Bool.not_eq_true, Files.samePlace_iff]
    rintro ⟨q, hxq, hq⟩
    refine hdest ?_
    rwa [← hc, Files.lands_of_locate hq, ← Files.lands_of_locate hxq, hc]
  cases h with
  | elsewhere hown => exact hab.tree.samePlace_eq p dest
  | taken hspent hspent' hread =>
    rw [hapart hhere (w.first.owns _ (hspent.owns _)),
      hapart (hab.tree.1.here.trans hhere) (w.owns _ (hspent'.owns _))]

/-- If the final copy of the first run succeeds, that of the second does. -/
theorem Alike.finalize (h : w.Alike s fs s' fs' p p') (hagree : fs.Agree w.first.own fs')
    (htree : w.first.start.SameTree fs)
    (hdest : ¬ w.first.own (dest.lands w.first.start.here))
    (hway : ∀ parent ∈ dest.parent?, ∀ name ∈ parent.components, ∀ q, ¬ w.first.own (q ++ [name]))
    (hfinal : Scratch.finalize p dest fs = (.ok (), out)) :
    ∃ out', Scratch.finalize p' dest fs' = (.ok (), out') ∧ out.Agree w.first.own out' := by
  simp only [Scratch.finalize_eq_ok, h.same_eq hdest, h.holds_eq hagree htree] at hfinal ⊢
  obtain ⟨hholds, ⟨hsame, rfl⟩ | ⟨hother, paved, hmake, hcopy⟩⟩ := hfinal
  · exact ⟨fs', ⟨hholds, .inl ⟨hsame, rfl⟩⟩, hagree⟩
  · have hway' : (Scratch.makeWay dest fs').1 = (Scratch.makeWay dest fs).1 ∧
        (Scratch.makeWay dest fs).2.Agree w.first.own (Scratch.makeWay dest fs').2 := by
      unfold Scratch.makeWay
      cases hparent : dest.parent? with
      | none => exact ⟨rfl, hagree⟩
      | some parent => exact hagree.makeDirectory (hway parent hparent)
    have hgrown := Scratch.paved_makeWay dest fs
    have hgrown' := Scratch.paved_makeWay dest fs'
    rw [hmake] at hway' hgrown
    obtain ⟨hmade, hpaved⟩ := hway'
    have hhere : paved.here = w.first.start.here := hgrown.here.trans htree.1.here
    have hread : (Scratch.makeWay dest fs').2.readable p' = paved.readable p := by
      rw [hgrown.readable_eq hholds, hgrown'.readable_eq ((h.holds_eq hagree htree).trans hholds),
        h.readable_eq hagree htree.1.here]
    obtain ⟨out', hcopy', hout⟩ := hpaved.copy (hhere ▸ hdest) hread
      (h.samePlace_eq hdest hpaved hhere) hcopy
    have hmake' : Scratch.makeWay dest fs' = (.ok (), (Scratch.makeWay dest fs').2) :=
      Prod.ext hmade rfl
    exact ⟨out', ⟨hholds, .inr ⟨hother, _, hmake', hcopy'⟩⟩, hout⟩

end Twins

/-! ## Behind the sweep -/

namespace Registry
variable {r r' : Registry} {own : Place → Prop} {fs fs' : Files} {output : Path}

/-- A sweep of all but the output removes what lies elsewhere in both, or in neither. -/
theorem contents_sweep_eq (hagree : fs.Agree own fs')
    (hproduced : ∀ t ∈ r.transients, t.state = .produced)
    (hproduced' : ∀ t ∈ r'.transients, t.state = .produced)
    (htracks : ∀ x, ¬ own (x.lands fs.here) → (r'.Tracks x ↔ r.Tracks x)) {q : Place}
    (hq : ¬ own q) :
    (sweep fs' (r'.persist output).transients).files.contents q =
      (sweep fs (r.persist output).transients).files.contents q := by
  have htracked {x : Path} (hx : fs.locate x = .ok q) : r'.Tracks x ↔ r.Tracks x :=
    htracks x (by rwa [Files.lands_of_locate hx])
  by_cases hremoved : ∃ x, r.Tracks x ∧ x.same output = false ∧ fs.locate x = .ok q
  · obtain ⟨x, hx, hother, hloc⟩ := hremoved
    obtain ⟨t', ht', hpath'⟩ := (htracked hloc).mpr hx
    obtain ⟨t, ht, rfl⟩ := hx
    obtain ⟨hmem, hstate⟩ := mem_persist_produced.mpr ⟨ht, hproduced t ht, hother⟩
    obtain ⟨hmem', hstate'⟩ :=
      mem_persist_produced.mpr ⟨ht', hproduced' t' ht', hpath' ▸ hother⟩
    rw [contents_sweep hmem hstate hloc,
      contents_sweep hmem' hstate' (hpath' ▸ hagree.tree.locate_iff.mpr hloc)]
  · have hkept : ∀ t ∈ (r.persist output).transients, t.state = .produced →
        fs.locate t.path ≠ .ok q := by
      intro t ht hstate hloc
      obtain ⟨hold, -, hother⟩ := mem_persist_produced.mp ⟨ht, hstate⟩
      exact hremoved ⟨t.path, ⟨t, hold, rfl⟩, hother, hloc⟩
    have hkept' : ∀ t ∈ (r'.persist output).transients, t.state = .produced →
        fs'.locate t.path ≠ .ok q := by
      intro t ht hstate hloc
      obtain ⟨hold, -, hother⟩ := mem_persist_produced.mp ⟨ht, hstate⟩
      have hloc' := hagree.tree.locate_iff.mp hloc
      exact hremoved ⟨t.path, (htracked hloc').mp ⟨t, hold, rfl⟩, hother, hloc'⟩
    unfold Files.contents
    rw [at?_sweep hkept, at?_sweep hkept', hagree.elsewhere q hq]

/-- So what is read elsewhere is the same behind both. -/
theorem readable_sweep_eq (hagree : fs.Agree own fs')
    (hproduced : ∀ t ∈ r.transients, t.state = .produced)
    (hproduced' : ∀ t ∈ r'.transients, t.state = .produced)
    (htracks : ∀ x, ¬ own (x.lands fs.here) → (r'.Tracks x ↔ r.Tracks x)) {p : Path}
    (hp : ¬ own (p.lands fs.here)) :
    (sweep fs' (r'.persist output).transients).files.readable p =
      (sweep fs (r.persist output).transients).files.readable p := by
  have htree := sweep_sameTree fs (r.persist output).transients
  have htree' := sweep_sameTree fs' (r'.persist output).transients
  have hlocate {q : Place} : (sweep fs' (r'.persist output).transients).files.locate p = .ok q ↔
      (sweep fs (r.persist output).transients).files.locate p = .ok q := by
    rw [htree'.locate_iff, hagree.tree.locate_iff, htree.locate_iff]
  cases hq : (sweep fs (r.persist output).transients).files.locate p with
  | ok q =>
    have hown : ¬ own q := by rwa [← Files.lands_of_locate (htree.locate_iff.mp hq)]
    rw [Files.readable_of_locate hq, Files.readable_of_locate (hlocate.mpr hq),
      contents_sweep_eq hagree hproduced hproduced' htracks hown]
  | error e =>
    rw [Files.readable_of_locate_error hq]
    cases hq' : (sweep fs' (r'.persist output).transients).files.locate p with
    | ok q =>
      rw [hlocate.mp hq'] at hq
      exact absurd hq nofun
    | error e' => rw [Files.readable_of_locate_error hq']

end Registry

end Montage
