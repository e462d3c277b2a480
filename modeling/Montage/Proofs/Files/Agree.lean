import Montage.Proofs.Files.Landing

/-!
# Files that agree but at some places

Two states of the files agree but at some places if they have the same directories, and the same at
every other place. What lands elsewhere is read the same in both, and writing there, or making
directories on a way that keeps clear of those places, comes to the same in both.
-/

namespace Montage

namespace Files

/-- The same directories, and the same but at the places `own`. -/
structure Agree (own : Place → Prop) (a b : Files) : Prop where
  tree : a.SameTree b
  elsewhere : ∀ q, ¬ own q → b.at? q = a.at? q

variable {own : Place → Prop} {a b c : Files} {p : Path} {q : Place}

namespace Agree

theorem refl (a : Files) : a.Agree own a := ⟨.refl a, fun _ _ => rfl⟩

theorem symm (h : a.Agree own b) : b.Agree own a :=
  ⟨⟨h.tree.2, h.tree.1⟩, fun q hq => (h.elsewhere q hq).symm⟩

theorem trans (h : a.Agree own b) (k : b.Agree own c) : a.Agree own c :=
  ⟨h.tree.trans k.tree, fun q hq => (k.elsewhere q hq).trans (h.elsewhere q hq)⟩

theorem of_touches (h : a.Touches b p) (hp : ∀ q, a.locate p = .ok q → own q) : a.Agree own b :=
  ⟨h.sameTree, fun q hq => h.elsewhere q fun hloc => hq (hp q hloc)⟩

/-! ## Reading -/

theorem at?_of_locate (h : a.Agree own b) (hp : ¬ own (p.lands a.here)) (hq : a.locate p = .ok q) :
    b.at? q = a.at? q :=
  h.elsewhere q (lands_of_locate hq ▸ hp)

theorem entry_iff (h : a.Agree own b) (hp : ¬ own (p.lands a.here)) {e : Entry} :
    b.entry p = .ok e ↔ a.entry p = .ok e := by
  simp only [entry_eq_ok]
  constructor
  · rintro ⟨q, hq, he⟩
    have hq := h.tree.locate_iff.mp hq
    exact ⟨q, hq, (h.at?_of_locate hp hq).symm.trans he⟩
  · rintro ⟨q, hq, he⟩
    exact ⟨q, h.tree.locate_iff.mpr hq, (h.at?_of_locate hp hq).trans he⟩

theorem isFile_eq (h : a.Agree own b) (hp : ¬ own (p.lands a.here)) :
    b.isFile p = a.isFile p := by
  unfold isFile
  cases ha : a.entry p with
  | ok e => rw [(h.entry_iff hp).mpr ha]
  | error e =>
    cases hb : b.entry p with
    | ok e' =>
      rw [(h.entry_iff hp).mp hb] at ha
      exact absurd ha nofun
    | error e' => rfl

end Agree

theorem holds_congr (h : ∀ e, b.entry p = .ok e ↔ a.entry p = .ok e) : b.holds p = a.holds p := by
  rw [Bool.eq_iff_iff, holds_iff, holds_iff]
  simp only [exists_comm (α := Place), ← entry_eq_ok, h]

theorem Agree.holds_eq (h : a.Agree own b) (hp : ¬ own (p.lands a.here)) : b.holds p = a.holds p :=
  holds_congr fun _ => h.entry_iff hp

/-- What can be read at a path. -/
def readable (fs : Files) (p : Path) : Option ByteArray := (fs.read p).toOption

theorem readable_eq_some {bytes : ByteArray} : a.readable p = some bytes ↔
    ∃ e, a.entry p = .ok e ∧ e.bytes? = some bytes := by
  have hread : a.readable p = some bytes ↔ a.read p = .ok bytes := by
    unfold readable
    cases a.read p with
    | ok c => simp [Except.toOption]
    | error e => simp [Except.toOption]
  simp only [hread, read_eq_ok, entry_eq_ok, contents, Option.bind_eq_some_iff]
  constructor
  · rintro ⟨q, hq, e, he, hbytes⟩
    exact ⟨e, ⟨q, hq, he⟩, hbytes⟩
  · rintro ⟨e, ⟨q, hq, he⟩, hbytes⟩
    exact ⟨q, hq, e, he, hbytes⟩

theorem readable_of_locate (h : a.locate p = .ok q) : a.readable p = a.contents q := by
  unfold readable
  cases hread : a.read p with
  | ok bytes =>
    obtain ⟨q', hq', hbytes⟩ := read_eq_ok.mp hread
    obtain rfl := Except.ok.inj (h.symm.trans hq')
    exact hbytes.symm
  | error e =>
    cases hbytes : a.contents q with
    | none => rfl
    | some bytes =>
      rw [read_eq_ok.mpr ⟨q, h, hbytes⟩] at hread
      exact absurd hread nofun

theorem readable_of_locate_error {e : IoError} (h : a.locate p = .error e) :
    a.readable p = none := by
  cases hread : a.readable p with
  | none => rfl
  | some bytes =>
    obtain ⟨e', he, -⟩ := readable_eq_some.mp hread
    obtain ⟨q, hq, -⟩ := entry_eq_ok.mp he
    exact absurd (h.symm.trans hq) nofun

theorem readable_congr (h : ∀ e, b.entry p = .ok e ↔ a.entry p = .ok e) :
    b.readable p = a.readable p := by
  refine Option.ext fun bytes => ?_
  rw [readable_eq_some, readable_eq_some]
  simp only [h]

theorem Agree.readable_eq (h : a.Agree own b) (hp : ¬ own (p.lands a.here)) :
    b.readable p = a.readable p :=
  readable_congr fun _ => h.entry_iff hp

/-- What is there can be read, unless it is a directory. -/
theorem holds_eq_isSome_readable (h : ∀ q, a.locate p = .ok q → a.at? q ≠ some .directory) :
    a.holds p = (a.readable p).isSome := by
  rw [Bool.eq_iff_iff, holds_iff, Option.isSome_iff_exists]
  simp only [readable_eq_some, entry_eq_ok]
  constructor
  · rintro ⟨q, e, hq, he⟩
    obtain ⟨bytes, hbytes⟩ := Option.ne_none_iff_exists'.mp fun hnone =>
      h q hq (bytes?_eq_none.mp hnone ▸ he)
    exact ⟨bytes, e, ⟨q, hq, he⟩, hbytes⟩
  · rintro ⟨bytes, e, ⟨q, hq, he⟩, -⟩
    exact ⟨q, e, hq, he⟩

theorem readable_eq_none (h : a.holds p = false) : a.readable p = none := by
  cases hread : a.readable p with
  | none => rfl
  | some bytes =>
    obtain ⟨e, he, -⟩ := readable_eq_some.mp hread
    obtain ⟨q, hq, hplace⟩ := entry_eq_ok.mp he
    exact absurd (holds_iff.mpr ⟨q, e, hq, hplace⟩) (by simp [h])

theorem readable_of_write {bytes : ByteArray} (h : a.write p bytes = .ok b) :
    b.readable p = some bytes := by
  have htree := (touches_of_write h).sameTree
  obtain ⟨q, hq, hnil, -, rfl⟩ := write_eq_ok h
  exact readable_eq_some.mpr
    ⟨.file bytes, entry_eq_ok.mpr ⟨q, htree.locate_iff.mpr hq, at?_set_self a hnil _⟩, rfl⟩

/-! ## Writing -/

namespace Agree

theorem set (h : a.Agree own b) (q : Place) (e : Entry) : (a.set q e).Agree own (b.set q e) := by
  have hat? (fs : Files) (r : Place) :
      (fs.set q e).at? r = if r = q ∧ q ≠ [] then some e else fs.at? r := by
    by_cases hr : r = q
    · subst hr
      by_cases hnil : r = []
      · rw [if_neg fun h => h.2 hnil, hnil, at?_nil, at?_nil]
      · rw [if_pos ⟨rfl, hnil⟩, at?_set_self fs hnil]
    · rw [if_neg fun h => hr h.1, at?_set_of_ne fs hr]
  have hgrows {a b : Files} (h : a.Grows b) : (a.set q e).Grows (b.set q e) := by
    refine ⟨h.here, fun r hr => ?_⟩
    rw [hat?] at hr ⊢
    split_ifs at hr ⊢
    · exact hr
    · exact h.directories r hr
  refine ⟨⟨hgrows h.tree.1, hgrows h.tree.2⟩, fun r hr => ?_⟩
  rw [hat?, hat?, h.elsewhere r hr]

/-- What can be written elsewhere in one can be written in the other. -/
theorem write (h : a.Agree own b) (hp : ¬ own (p.lands a.here)) {bytes : ByteArray} {out : Files}
    (hwrite : a.write p bytes = .ok out) :
    ∃ out', b.write p bytes = .ok out' ∧ out.Agree own out' := by
  obtain ⟨q, hq, -, -, rfl⟩ := write_eq_ok hwrite
  refine ⟨b.set q (.file bytes), ?_, h.set q (.file bytes)⟩
  unfold Files.write at hwrite ⊢
  split_ifs at hwrite ⊢
  · cases hwalk : a.walk p p.way with
    | error e => simp [bind, Except.bind, hwalk] at hwrite
    | ok r => simp [bind, Except.bind, hwalk] at hwrite
  · simp only [bind, Except.bind, hq] at hwrite
    simp only [bind, Except.bind, h.tree.locate_iff.mpr hq, h.at?_of_locate hp hq]
    split at hwrite
    · exact absurd hwrite nofun
    · exact absurd hwrite nofun
    · rfl

theorem write_error (h : a.Agree own b) (hp : ¬ own (p.lands a.here)) {bytes : ByteArray}
    {e : IoError} (hwrite : a.write p bytes = .error e) :
    ∃ e', b.write p bytes = .error e' := by
  cases hb : b.write p bytes with
  | error e' => exact ⟨e', rfl⟩
  | ok out =>
    rw [← h.tree.1.here] at hp
    obtain ⟨out', hout, -⟩ := h.symm.write hp hb
    rw [hwrite] at hout
    exact absurd hout nofun

theorem addDirectories (h : a.Agree own b) {segments : List String}
    (hsegments : ∀ s ∈ segments, ∀ q, ¬ own (q ++ [s])) (made dotted : Bool) (q : Place) :
    (b.addDirectories made dotted q segments).1 = (a.addDirectories made dotted q segments).1 ∧
      (a.addDirectories made dotted q segments).2.Agree own
        (b.addDirectories made dotted q segments).2 := by
  induction segments generalizing a b made q with
  | nil => exact ⟨rfl, h⟩
  | cons s rest ih =>
    obtain ⟨hs, hrest⟩ := List.forall_mem_cons.mp hsegments
    simp only [Files.addDirectories]
    split
    · exact ih h hrest made q
    split
    · exact ih h hrest made q.dropLast
    split
    · exact ⟨rfl, h⟩
    rw [h.elsewhere (q ++ [s]) (hs q)]
    split
    · exact ih h hrest made (q ++ [s])
    · exact ⟨rfl, h⟩
    · split
      · exact ⟨rfl, h⟩
      · exact ih (h.set (q ++ [s]) .directory) hrest true (q ++ [s])

theorem makeDirectory (h : a.Agree own b) (hp : ∀ s ∈ p.components, ∀ q, ¬ own (q ++ [s])) :
    (b.makeDirectory p).1 = (a.makeDirectory p).1 ∧
      (a.makeDirectory p).2.Agree own (b.makeDirectory p).2 := by
  unfold Files.makeDirectory
  split
  · exact ⟨rfl, h⟩
  · exact ⟨rfl, h⟩
  · have hstart : b.start p = a.start p := by simp only [start, h.tree.1.here]
    rw [hstart]
    exact h.addDirectories hp false p.endsInDot (a.start p)

end Agree

end Files

end Montage
