import Mathlib.Tactic.SplitIfs
import Montage.Files.Basic

/-!
# What operations on files change

The contents of the files are a map from places to bytes. An operation that writes touches the place
of one path, one that makes directories puts them where nothing was, and one that removes leaves
nothing where a file was. None of them takes a directory away, so that a path that leads somewhere
goes on leading there.
-/

namespace Montage

namespace Files

/-- The contents of what can be read, by place. -/
def contents (fs : Files) (q : Place) : Option ByteArray := (fs.at? q).bind Entry.bytes?

theorem at?_nil (fs : Files) : fs.at? [] = some .directory := if_pos rfl

theorem at?_erase_self (fs : Files) {p : Place} (hp : p ≠ []) : (fs.erase p).at? p = none := by
  have hnone : (fs.entries.filter fun m => m.1 ≠ p).lookup p = none := by
    induction fs.entries with
    | nil => rfl
    | cons m es ih =>
      obtain ⟨k, e⟩ := m
      by_cases hk : k = p
      · simpa [hk] using ih
      · have hpk : (p == k) = false := by simpa using Ne.symm hk
        simpa [hk, List.lookup_cons, hpk] using ih
  simp only [at?, erase, if_neg hp, hnone]

theorem bytes?_eq_none {e : Entry} : e.bytes? = none ↔ e = .directory := by
  cases e <;> simp [Entry.bytes?]

theorem contents_eq_none {fs : Files} {q : Place} :
    fs.contents q = none ↔ fs.at? q = none ∨ fs.at? q = some .directory := by
  unfold contents
  cases fs.at? q with
  | none => simp
  | some e => simp [bytes?_eq_none]

/-! ## Paths that go on leading to a place -/

/-- Every directory of `a` is one of `b`. -/
structure Grows (a b : Files) : Prop where
  here : b.here = a.here
  directories : ∀ q, a.at? q = some .directory → b.at? q = some .directory

namespace Grows
variable {a b c : Files}

theorem refl (a : Files) : a.Grows a := ⟨rfl, fun _ h => h⟩

theorem trans (h : a.Grows b) (k : b.Grows c) : a.Grows c :=
  ⟨k.here.trans h.here, fun q hq => k.directories q (h.directories q hq)⟩

theorem follow (h : a.Grows b) {p q : Place} {segments : List String}
    (hf : a.follow p segments = .ok q) : b.follow p segments = .ok q := by
  induction segments generalizing p with
  | nil => exact hf
  | cons s rest ih =>
    simp only [Files.follow] at hf ⊢
    cases hp : a.at? p with
    | none =>
      rw [hp] at hf
      exact absurd hf (by simp)
    | some e =>
      rw [hp] at hf
      cases e with
      | file bytes => exact absurd hf (by simp)
      | program => exact absurd hf (by simp)
      | directory =>
        rw [h.directories p hp]
        simp only at hf ⊢
        split_ifs at hf ⊢
        · exact ih hf
        · exact ih hf
        · exact ih hf

theorem locate (h : a.Grows b) {p : Path} {q : Place} (hp : a.locate p = .ok q) :
    b.locate p = .ok q := by
  unfold Files.locate Files.walk at hp ⊢
  have hstart : b.start p = a.start p := by simp only [Files.start, h.here]
  cases hu : unusable? p with
  | some e =>
    rw [hu] at hp
    exact absurd hp (by simp)
  | none =>
    rw [hu] at hp
    rw [hstart]
    exact h.follow hp

/-- A path leads to one place at most, however much grows. -/
theorem locate_inj (h : a.Grows b) {p : Path} {q r : Place} (hq : a.locate p = .ok q)
    (hr : b.locate p = .ok r) : q = r :=
  Except.ok.inj ((h.locate hq).symm.trans hr)

end Grows

/-- Both have the same directories, so that paths lead to the same places in both. -/
def SameTree (a b : Files) : Prop := a.Grows b ∧ b.Grows a

namespace SameTree
variable {a b c : Files}

theorem refl (a : Files) : a.SameTree a := ⟨.refl a, .refl a⟩

theorem trans (h : a.SameTree b) (k : b.SameTree c) : a.SameTree c :=
  ⟨h.1.trans k.1, k.2.trans h.2⟩

theorem locate_iff (h : a.SameTree b) {p : Path} {q : Place} :
    b.locate p = .ok q ↔ a.locate p = .ok q :=
  ⟨h.2.locate, h.1.locate⟩

end SameTree

/-! ## Reading -/

theorem entry_eq_ok {fs : Files} {p : Path} {e : Entry} :
    fs.entry p = .ok e ↔ ∃ q, fs.locate p = .ok q ∧ fs.at? q = some e := by
  unfold entry
  cases hp : fs.locate p with
  | error err => simp [bind, Except.bind]
  | ok q =>
    cases hq : fs.at? q with
    | none => simp [bind, Except.bind, hq]
    | some d => simp [bind, Except.bind, hq]

theorem read_eq_ok {fs : Files} {p : Path} {bytes : ByteArray} :
    fs.read p = .ok bytes ↔ ∃ q, fs.locate p = .ok q ∧ fs.contents q = some bytes := by
  unfold read
  cases he : fs.entry p with
  | error err =>
    have hno : ∀ q, fs.locate p = .ok q → fs.at? q = none := by
      intro q hq
      cases ha : fs.at? q with
      | none => rfl
      | some e => rw [entry_eq_ok.mpr ⟨q, hq, ha⟩] at he; exact absurd he (by simp)
    simp only [bind, Except.bind, reduceCtorEq, false_iff, not_exists, not_and]
    intro q hq
    simp [contents, hno q hq]
  | ok e =>
    obtain ⟨q, hq, ha⟩ := entry_eq_ok.mp he
    cases hb : e.bytes? with
    | none => simp [bind, Except.bind, hb, hq, contents, ha]
    | some c => simp [bind, Except.bind, hb, hq, contents, ha]

theorem holds_iff {fs : Files} {p : Path} :
    fs.holds p = true ↔ ∃ q e, fs.locate p = .ok q ∧ fs.at? q = some e := by
  unfold holds
  cases he : fs.entry p with
  | error err =>
    simp only [Except.toOption, Option.isSome_none, Bool.false_eq_true, false_iff]
    rintro ⟨q, e, hq, ha⟩
    rw [entry_eq_ok.mpr ⟨q, hq, ha⟩] at he
    exact absurd he (by simp)
  | ok e =>
    obtain ⟨q, hq, ha⟩ := entry_eq_ok.mp he
    simpa [Except.toOption] using ⟨q, hq, e, ha⟩

theorem isDirectory_iff {fs : Files} {p : Path} :
    fs.isDirectory p = true ↔ ∃ q, fs.locate p = .ok q ∧ fs.at? q = some .directory := by
  rw [← entry_eq_ok]
  unfold isDirectory
  split
  · simp_all
  · simp_all

theorem contents_of_isFile {fs : Files} {p : Path} (h : fs.isFile p = true) :
    ∃ q bytes, fs.locate p = .ok q ∧ fs.contents q = some bytes := by
  unfold isFile at h
  split at h
  · rename_i bytes he
    obtain ⟨q, hq, ha⟩ := entry_eq_ok.mp he
    exact ⟨q, bytes, hq, by simp [contents, ha, Entry.bytes?]⟩
  · rename_i he
    obtain ⟨q, hq, ha⟩ := entry_eq_ok.mp he
    refine ⟨q, ⟨#[0x7f, 0x45, 0x4c, 0x46, 0xff]⟩, hq, ?_⟩
    simp only [contents, ha, Option.bind_some, Entry.bytes?]
  · exact absurd h (by simp)

theorem samePlace_iff {fs : Files} {p q : Path} :
    fs.samePlace p q = true ↔ ∃ r, fs.locate p = .ok r ∧ fs.locate q = .ok r := by
  unfold samePlace
  cases fs.locate p with
  | error e => simp
  | ok a =>
    cases fs.locate q with
    | error e => simp
    | ok b =>
      simp only [beq_iff_eq, Except.ok.injEq]
      constructor
      · intro hab
        exact ⟨a, rfl, hab.symm⟩
      · rintro ⟨r, rfl, rfl⟩
        rfl

theorem SameTree.samePlace_eq {a b : Files} (h : a.SameTree b) (p p' : Path) :
    b.samePlace p p' = a.samePlace p p' := by
  rw [Bool.eq_iff_iff, samePlace_iff, samePlace_iff]
  constructor
  · rintro ⟨q, hp, hp'⟩
    exact ⟨q, h.locate_iff.mp hp, h.locate_iff.mp hp'⟩
  · rintro ⟨q, hp, hp'⟩
    exact ⟨q, h.locate_iff.mpr hp, h.locate_iff.mpr hp'⟩

/-! ## Writing -/

/-- Between `a` and `b` no more has happened than that a file was written at `p`. -/
structure Touches (a b : Files) (p : Path) : Prop where
  here : b.here = a.here
  elsewhere : ∀ q, a.locate p ≠ .ok q → b.at? q = a.at? q
  there : ∀ q, a.locate p = .ok q → b.at? q = a.at? q ∨
    a.at? q ≠ some .directory ∧ ∃ bytes, b.at? q = some (.file bytes)

namespace Touches
variable {a b : Files} {p : Path}

theorem refl (a : Files) (p : Path) : a.Touches a p := ⟨rfl, fun _ _ => rfl, fun _ _ => .inl rfl⟩

/-- What is changed is the place of `p`. -/
theorem changed (h : a.Touches b p) {q : Place} (hq : b.at? q ≠ a.at? q) : a.locate p = .ok q := by
  by_cases hp : a.locate p = .ok q
  · exact hp
  · exact absurd (h.elsewhere q hp) hq

theorem at?_eq_directory (h : a.Touches b p) (q : Place) :
    b.at? q = some .directory ↔ a.at? q = some .directory := by
  by_cases hp : a.locate p = .ok q
  · rcases h.there q hp with hsame | ⟨hdir, bytes, hfile⟩
    · rw [hsame]
    · simp [hfile, hdir]
  · rw [h.elsewhere q hp]

theorem sameTree (h : a.Touches b p) : a.SameTree b :=
  ⟨⟨h.here, fun q => (h.at?_eq_directory q).mpr⟩, ⟨h.here.symm, fun q => (h.at?_eq_directory q).mp⟩⟩

end Touches

theorem write_eq_ok {fs out : Files} {p : Path} {bytes : ByteArray}
    (h : fs.write p bytes = .ok out) :
    ∃ q, fs.locate p = .ok q ∧ q ≠ [] ∧ fs.at? q ≠ some .directory ∧
      out = fs.set q (.file bytes) := by
  unfold write at h
  split_ifs at h
  · cases hw : fs.walk p p.way with
    | error e => simp [bind, Except.bind, hw] at h
    | ok q => simp [bind, Except.bind, hw] at h
  · cases hp : fs.locate p with
    | error e => simp [bind, Except.bind, hp] at h
    | ok q =>
      simp only [bind, Except.bind, hp] at h
      have hdir : fs.at? q ≠ some .directory := by
        intro hq
        simp [hq] at h
      refine ⟨q, rfl, ?_, hdir, ?_⟩
      · rintro rfl
        exact hdir fs.at?_nil
      · split at h
        · exact absurd h (by simp)
        · exact absurd h (by simp)
        · exact (Except.ok.inj h).symm

theorem touches_of_write {fs out : Files} {p : Path} {bytes : ByteArray}
    (h : fs.write p bytes = .ok out) : fs.Touches out p := by
  obtain ⟨q, hq, hnil, hdir, rfl⟩ := write_eq_ok h
  refine ⟨rfl, ?_, ?_⟩
  · intro r hr
    refine at?_set_of_ne fs ?_ _
    rintro rfl
    exact hr hq
  · intro r hr
    obtain rfl := Except.ok.inj (hq.symm.trans hr)
    exact .inr ⟨hdir, bytes, at?_set_self fs hnil _⟩

/-- A copy holds what was read, unless it was made onto what was read. -/
theorem copy_eq_ok {fs out : Files} {source dest : Path} (h : fs.copy source dest = .ok out) :
    ∃ bytes, fs.read source = .ok bytes ∧
      fs.write dest (if fs.samePlace source dest then ByteArray.empty else bytes) = .ok out := by
  unfold copy at h
  split at h
  · exact absurd h (by simp)
  · exact absurd h (by simp)
  · rename_i bytes hread
    exact ⟨bytes, hread, h⟩

/-! ## Making directories -/

/-- Between `a` and `b` directories were made where nothing was. -/
structure Paved (a b : Files) : Prop where
  here : b.here = a.here
  places : ∀ q, b.at? q = a.at? q ∨ a.at? q = none ∧ b.at? q = some .directory

namespace Paved
variable {a b c : Files}

theorem refl (a : Files) : a.Paved a := ⟨rfl, fun _ => .inl rfl⟩

theorem trans (h : a.Paved b) (k : b.Paved c) : a.Paved c := by
  refine ⟨k.here.trans h.here, fun q => ?_⟩
  rcases h.places q with hab | ⟨ha, hb⟩
  · rw [← hab]
    exact k.places q
  · rcases k.places q with hbc | ⟨hb', -⟩
    · exact .inr ⟨ha, hbc.trans hb⟩
    · rw [hb] at hb'
      exact absurd hb' (by simp)

theorem at?_eq {e : Entry} (h : a.Paved b) {q : Place} (hq : a.at? q = some e) :
    b.at? q = some e := by
  rcases h.places q with hab | ⟨ha, -⟩
  · rw [hab, hq]
  · rw [ha] at hq
    exact absurd hq (by simp)

theorem grows (h : a.Paved b) : a.Grows b := ⟨h.here, fun _ hq => h.at?_eq hq⟩

theorem contents_eq (h : a.Paved b) : b.contents = a.contents := by
  funext q
  rcases h.places q with hab | ⟨ha, hb⟩
  · unfold contents
    rw [hab]
  · rw [contents_eq_none.mpr (.inr hb), contents_eq_none.mpr (.inl ha)]

end Paved

theorem paved_set {fs : Files} {p : Place} (hp : fs.at? p = none) :
    fs.Paved (fs.set p .directory) := by
  refine ⟨rfl, fun q => ?_⟩
  by_cases hq : q = p
  · subst hq
    refine .inr ⟨hp, at?_set_self fs ?_ _⟩
    rintro rfl
    rw [at?_nil] at hp
    exact absurd hp (by simp)
  · exact .inl (at?_set_of_ne fs hq _)

theorem paved_addDirectories (segments : List String) (fs : Files) (made dotted : Bool)
    (p : Place) : fs.Paved (fs.addDirectories made dotted p segments).2 := by
  induction segments generalizing fs made p with
  | nil => exact .refl fs
  | cons s rest ih =>
    simp only [addDirectories]
    split
    · exact ih fs made p
    split
    · exact ih fs made p.dropLast
    split
    · exact .refl fs
    cases hnext : fs.at? (p ++ [s]) with
    | none =>
      dsimp only
      split
      · exact .refl fs
      · exact (paved_set hnext).trans (ih _ true (p ++ [s]))
    | some e =>
      cases e with
      | directory => exact ih fs made (p ++ [s])
      | file bytes => exact .refl fs
      | program => exact .refl fs

theorem paved_makeDirectory (fs : Files) (p : Path) : fs.Paved (fs.makeDirectory p).2 := by
  unfold makeDirectory
  split
  · exact .refl fs
  · exact .refl fs
  · exact paved_addDirectories ..

/-! ## Removing -/

/-- Between `a` and `b` the file at `p` was removed, if there was one. -/
structure Clears (a b : Files) (p : Path) : Prop where
  here : b.here = a.here
  elsewhere : ∀ q, a.locate p ≠ .ok q → b.at? q = a.at? q
  there : ∀ q, a.locate p = .ok q →
    b.at? q = if a.at? q = some .directory then some .directory else none

namespace Clears
variable {a b : Files} {p : Path}

theorem at?_eq_directory (h : a.Clears b p) (q : Place) :
    b.at? q = some .directory ↔ a.at? q = some .directory := by
  by_cases hp : a.locate p = .ok q
  · rw [h.there q hp]
    split_ifs with hdir
    · simp [hdir]
    · simp [hdir]
  · rw [h.elsewhere q hp]

theorem sameTree (h : a.Clears b p) : a.SameTree b :=
  ⟨⟨h.here, fun q => (h.at?_eq_directory q).mpr⟩, ⟨h.here.symm, fun q => (h.at?_eq_directory q).mp⟩⟩

theorem contents_eq_none (h : a.Clears b p) {q : Place} (hq : a.locate p = .ok q) :
    b.contents q = none := by
  rw [Files.contents_eq_none, h.there q hq]
  split_ifs
  · exact .inr rfl
  · exact .inl rfl

/-- What has no contents gets none. -/
theorem contents_eq_none_of_none (h : a.Clears b p) {q : Place} (hq : a.contents q = none) :
    b.contents q = none := by
  by_cases hp : a.locate p = .ok q
  · exact h.contents_eq_none hp
  · rw [Files.contents_eq_none] at hq ⊢
    rwa [h.elsewhere q hp]

/-- Where nothing can be removed, nothing has to be. -/
theorem refl {a : Files} {p : Path}
    (hp : ∀ q, a.locate p = .ok q → a.at? q = none ∨ a.at? q = some .directory) :
    a.Clears a p := by
  refine ⟨rfl, fun _ _ => rfl, fun q hq => ?_⟩
  rcases hp q hq with hnone | hdir
  · simp [hnone]
  · simp [hdir]

end Clears

theorem clears_erase {fs : Files} {p : Path} {q : Place} {e : Entry} (hp : fs.locate p = .ok q)
    (hq : fs.at? q = some e) (he : e ≠ .directory) : fs.Clears (fs.erase q) p := by
  have hnil : q ≠ [] := by
    rintro rfl
    rw [at?_nil] at hq
    exact he (Option.some.inj hq).symm
  refine ⟨rfl, ?_, ?_⟩
  · intro r hr
    refine at?_erase_of_ne fs ?_
    rintro rfl
    exact hr hp
  · intro r hr
    obtain rfl := Except.ok.inj (hp.symm.trans hr)
    rw [at?_erase_self fs hnil, hq, if_neg (by simpa using he)]

theorem remove_cases (fs : Files) (p : Path) :
    (∃ out, fs.remove p = .ok out ∧ fs.Clears out p) ∨
      ∃ e, fs.remove p = .error e ∧ fs.Clears fs p := by
  unfold remove
  cases hp : fs.locate p with
  | error e => exact .inr ⟨e, rfl, .refl fun q hq => by simp [hp] at hq⟩
  | ok q =>
    have hplace : ∀ r, fs.locate p = .ok r → r = q := fun r hr =>
      Except.ok.inj (hr.symm.trans hp)
    simp only [bind, Except.bind]
    cases hq : fs.at? q with
    | none =>
      refine .inr ⟨_, rfl, .refl fun r hr => .inl ?_⟩
      rw [hplace r hr, hq]
    | some e =>
      cases e with
      | directory =>
        refine .inr ⟨_, rfl, .refl fun r hr => .inr ?_⟩
        rw [hplace r hr, hq]
      | file bytes => exact .inl ⟨_, rfl, clears_erase hp hq (by simp)⟩
      | program => exact .inl ⟨_, rfl, clears_erase hp hq (by simp)⟩

end Files

end Montage
