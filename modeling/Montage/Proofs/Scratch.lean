import Montage.Proofs.Decimal.Padded
import Montage.Proofs.Files.Path
import Montage.Scratch

/-!
# Fresh paths and the final copy

A scratch directory is ready for a run when it is there and nothing is at the paths that it is going
to give out. It stays so while nothing is taken away: a path that it gives out leads to a place
where nothing was at the start, or nowhere. The final copy changes nothing but its destination,
apart from directories that it makes on the way.
-/

namespace Montage

theorem Path.IsName.of_underscore {name : String} (hslash : '/' ∉ name.toList)
    (h : '_' ∈ name.toList) : Path.IsName name := by
  refine ⟨hslash, ?_, ?_⟩
  · unfold Path.isNoise
    rw [Bool.or_eq_false_iff, beq_eq_false_iff_ne, beq_eq_false_iff_ne]
    constructor
    · rintro rfl
      exact absurd h (by decide)
    · rintro rfl
      exact absurd h (by decide)
  · rintro rfl
    exact absurd h (by decide)

namespace Scratch

/-- What the name of a path is made of, when it is asked for with this stem. -/
def nameAt (s : Scratch) (n : Nat) (stem extension : String) : String :=
  stem ++ "_" ++ padded 3 n ++ "_" ++ s.uid n ++ "." ++ extension

theorem isName_nameAt {s : Scratch} (hdigits : ∀ n, '/' ∉ (s.uid n).toList) (n : Nat)
    {stem extension : String} (hstem : '/' ∉ stem.toList) (hextension : '/' ∉ extension.toList) :
    Path.IsName (s.nameAt n stem extension) := by
  apply Path.IsName.of_underscore
  · have hslash : '/' ∉ (padded 3 n).toList := not_mem_padded (by decide) 3 n
    simp [nameAt, hstem, hextension, hdigits, hslash]
  · simp [nameAt]

/-- From `s` on, paths have been given out. -/
structure Later (s t : Scratch) : Prop where
  dir : t.dir = s.dir
  uid : t.uid = s.uid
  issued : s.issued ≤ t.issued

namespace Later
variable {s t : Scratch}

theorem refl (s : Scratch) : s.Later s := ⟨rfl, rfl, Nat.le_refl _⟩

theorem advance (h : s.Later t) : s.Later t.advance :=
  ⟨h.dir, h.uid, Nat.le_succ_of_le h.issued⟩

end Later

/-- The directory is there, and nothing is at the paths that are still to be given out. -/
structure Ready (s : Scratch) (fs : Files) : Prop where
  directory : fs.isDirectory s.dir = true
  digits : ∀ n, '/' ∉ (s.uid n).toList
  fresh : ∀ n, s.issued ≤ n → ∀ stem extension : String, '/' ∉ stem.toList →
    '/' ∉ extension.toList → fs.holds (s.pathAt n stem extension) = false

/-- One of the paths that are still to be given out. -/
def Gives (s : Scratch) (p : Path) : Prop :=
  ∃ n stem extension, s.issued ≤ n ∧ '/' ∉ String.toList stem ∧ '/' ∉ String.toList extension ∧
    p = s.pathAt n stem extension

theorem Later.gives_next {s t : Scratch} (h : s.Later t) {stem extension : String}
    (hstem : '/' ∉ stem.toList) (hextension : '/' ∉ extension.toList) :
    s.Gives (t.next stem extension) := by
  refine ⟨t.issued, stem, extension, h.issued, hstem, hextension, ?_⟩
  simp only [next, pathAt, h.dir, h.uid]

theorem Gives.exists_name {s : Scratch} {p : Path} (h : s.Gives p)
    (hdigits : ∀ n, '/' ∉ (s.uid n).toList) : ∃ name, Path.IsName name ∧ p = s.dir.join name := by
  obtain ⟨n, stem, extension, -, hstem, hextension, rfl⟩ := h
  exact ⟨s.nameAt n stem extension, isName_nameAt hdigits n hstem hextension, rfl⟩

namespace Ready
variable {s : Scratch} {fs out : Files} {p p' : Path} {q : Place}

/-- While the directory stays, its paths lead where they led when it was ready. -/
theorem locate_eq (h : s.Ready fs) (hp : s.Gives p) (hout : fs.Grows out) :
    out.locate p = fs.locate p := by
  obtain ⟨name, hname, rfl⟩ := hp.exists_name h.digits
  obtain ⟨d, hd, hdir⟩ := Files.isDirectory_iff.mp h.directory
  rw [Files.locate_join (hout.locate hd) (hout.directories d hdir) hname,
    Files.locate_join hd hdir hname]

/-- Where a path leads that is given out, nothing was when the directory was ready. -/
theorem at?_eq_none (h : s.Ready fs) (hp : s.Gives p) (hout : fs.Grows out)
    (hq : out.locate p = .ok q) : fs.at? q = none := by
  rw [h.locate_eq hp hout] at hq
  obtain ⟨n, stem, extension, hn, hstem, hextension, rfl⟩ := hp
  cases ha : fs.at? q with
  | none => rfl
  | some e =>
    have hholds := Files.holds_iff.mpr ⟨q, e, hq, ha⟩
    rw [h.fresh n hn stem extension hstem hextension] at hholds
    exact absurd hholds (by simp)

theorem eq_of_same (h : s.Ready fs) (hp : s.Gives p) (hp' : s.Gives p')
    (hsame : p.same p' = true) : p = p' := by
  obtain ⟨name, hname, rfl⟩ := hp.exists_name h.digits
  obtain ⟨name', hname', rfl⟩ := hp'.exists_name h.digits
  rw [hname.eq_of_same hname' hsame]

theorem eq_of_locate (h : s.Ready fs) (hp : s.Gives p) (hp' : s.Gives p')
    (hq : fs.locate p = .ok q) (hq' : fs.locate p' = .ok q) : p = p' := by
  obtain ⟨d, hd, hdir⟩ := Files.isDirectory_iff.mp h.directory
  obtain ⟨name, hname, rfl⟩ := hp.exists_name h.digits
  obtain ⟨name', hname', rfl⟩ := hp'.exists_name h.digits
  have hplace {a : String} (ha : Path.IsName a) (hloc : fs.locate (s.dir.join a) = .ok q) :
      q = d ++ [a] := by
    rw [Files.locate_join hd hdir ha] at hloc
    split at hloc
    · exact absurd hloc (by simp)
    · split_ifs at hloc
      exact (Except.ok.inj hloc).symm
  have heq : d ++ [name] = d ++ [name'] := (hplace hname hq).symm.trans (hplace hname' hq')
  rw [List.cons.inj (List.append_cancel_left heq) |>.1]

/-- A directory with nothing in it is ready. -/
theorem of_empty {d : Place} (hd : fs.locate s.dir = .ok d) (hdir : fs.at? d = some .directory)
    (hempty : ∀ name, fs.at? (d ++ [name]) = none) (hdigits : ∀ n, '/' ∉ (s.uid n).toList) :
    s.Ready fs where
  directory := Files.isDirectory_iff.mpr ⟨d, hd, hdir⟩
  digits := hdigits
  fresh n hn stem extension hstem hextension := by
    rw [← Bool.not_eq_true]
    intro hholds
    obtain ⟨q, e, hq, he⟩ := Files.holds_iff.mp hholds
    have hgives : s.Gives (s.pathAt n stem extension) :=
      ⟨n, stem, extension, hn, hstem, hextension, rfl⟩
    obtain ⟨name, hname, hjoin⟩ := hgives.exists_name hdigits
    rw [hjoin, Files.locate_join hd hdir hname] at hq
    split at hq
    · exact absurd hq (by simp)
    · split_ifs at hq
      rw [← Except.ok.inj hq, hempty name] at he
      exact absurd he (by simp)

end Ready

/-- A transient file is gone when it has been discarded, and also when it could not be. -/
theorem discard_cases (p : Path) (fs : Files) :
    (∃ out, discard p fs = .ok out ∧ fs.Clears out p) ∨
      ∃ e, discard p fs = .error e ∧ fs.Clears fs p := by
  unfold discard
  rcases fs.remove_cases p with ⟨out, hremove, hclears⟩ | ⟨e, hremove, hclears⟩
  · exact .inl ⟨out, by rw [hremove], hclears⟩
  · rw [hremove]
    cases e with
    | notFound => exact .inl ⟨fs, rfl, hclears⟩
    | _ => exact .inr ⟨_, rfl, hclears⟩

theorem paved_makeWay (dest : Path) (fs : Files) : fs.Paved (makeWay dest fs).2 := by
  unfold makeWay
  split
  · exact Files.paved_makeDirectory fs _
  · exact .refl fs

/-- A final copy that fails has at most made directories. -/
theorem finalize_error {artifact dest : Path} {fs out : Files} {e : Failure}
    (h : finalize artifact dest fs = (.error e, out)) : fs.Paved out := by
  unfold finalize at h
  split_ifs at h
  · obtain ⟨-, rfl⟩ := Prod.mk.inj h
    exact .refl fs
  · exact absurd (Prod.mk.inj h).1 (by simp)
  · have hway := paved_makeWay dest fs
    split at h
    · rename_i hmake
      rw [hmake] at hway
      obtain ⟨-, rfl⟩ := Prod.mk.inj h
      exact hway
    · rename_i hmake
      rw [hmake] at hway
      split at h
      · exact absurd (Prod.mk.inj h).1 (by simp)
      · obtain ⟨-, rfl⟩ := Prod.mk.inj h
        exact hway

/-- What is copied was there before directories were made on the way to the output. -/
theorem copy_of_paved {artifact dest : Path} {fs paved out : Files}
    (hholds : fs.holds artifact = true) (hpaved : fs.Paved paved)
    (hcopy : paved.copy artifact dest = .ok out) :
    ∃ bytes, fs.read artifact = .ok bytes ∧ paved.write dest
      (if paved.samePlace artifact dest then ByteArray.empty else bytes) = .ok out := by
  obtain ⟨q, e, hq, -⟩ := Files.holds_iff.mp hholds
  obtain ⟨bytes, hread, hwrite⟩ := Files.copy_eq_ok hcopy
  obtain ⟨q', hq', hbytes⟩ := Files.read_eq_ok.mp hread
  rw [← hpaved.grows.locate_inj hq hq', hpaved.contents_eq] at hbytes
  exact ⟨bytes, Files.read_eq_ok.mpr ⟨q, hq, hbytes⟩, hwrite⟩

/-- A final copy that succeeds leaves an artifact that is written like its destination alone, and
writes what it reads from any other, unless the two are one file. -/
theorem finalize_ok {artifact dest : Path} {fs out : Files}
    (h : finalize artifact dest fs = (.ok (), out)) :
    fs.holds artifact = true ∧ (artifact.same dest = true ∧ out = fs ∨
      artifact.same dest = false ∧ ∃ paved bytes, fs.Paved paved ∧ fs.read artifact = .ok bytes ∧
        paved.write dest (if paved.samePlace artifact dest then ByteArray.empty else bytes) =
          .ok out) := by
  unfold finalize at h
  split_ifs at h with hholds hsame
  · exact absurd (Prod.mk.inj h).1 (by simp)
  · have hout := (Prod.mk.inj h).2
    exact ⟨by simpa using hholds, .inl ⟨hsame, hout.symm⟩⟩
  · have hholds : fs.holds artifact = true := by simpa using hholds
    refine ⟨hholds, .inr ⟨by simpa using hsame, ?_⟩⟩
    have hway := paved_makeWay dest fs
    split at h
    · exact absurd (Prod.mk.inj h).1 (by simp)
    · rename_i paved hmake
      rw [hmake] at hway
      split at h
      · rename_i copied hcopy
        obtain ⟨-, rfl⟩ := Prod.mk.inj h
        obtain ⟨bytes, hread, hwrite⟩ := copy_of_paved hholds hway hcopy
        exact ⟨paved, bytes, hway, hread, hwrite⟩
      · exact absurd (Prod.mk.inj h).1 (by simp)

end Scratch

end Montage
