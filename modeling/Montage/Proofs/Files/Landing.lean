import Montage.Proofs.Files.Path

/-!
# Paths apart

Whatever files there are, a path leads to one place if it leads anywhere, the place where it lands.
So paths that land at different places are neither written alike nor lead to one file, and to write
at one of them leaves what is at the other.
-/

namespace Montage

namespace Path

/-- From a place by a name, which may lead back. -/
def descend (q : Place) (name : String) : Place := if name = ".." then q.dropLast else q ++ [name]

/-- Where a path leads if it leads anywhere. -/
def lands (here : Place) (p : Path) : Place :=
  p.names.foldl descend (if p.isAbsolute then [] else here)

theorem lands_eq_of_same {p p' : Path} (h : p.same p' = true) (here : Place) :
    p.lands here = p'.lands here := by
  have hcomponents : p.components = p'.components := by simpa [same] using h
  have habs : p.isAbsolute = p'.isAbsolute := by
    rw [Bool.eq_iff_iff, isAbsolute_iff, isAbsolute_iff, hcomponents]
  unfold lands
  rw [names_eq_of_same h, habs]

/-- A path ends at the place of its last name. -/
theorem getLast?_lands {p : Path} {name : String} (hlast : p.names.getLast? = some name)
    (hname : name ≠ "..") (here : Place) : (p.lands here).getLast? = some name := by
  obtain ⟨front, hfront⟩ := List.getLast?_eq_some_iff.mp hlast
  unfold lands
  rw [hfront, List.foldl_append, List.foldl_cons, List.foldl_nil, descend, if_neg hname,
    List.getLast?_concat]

namespace IsName
variable {name : String}

/-- A name joined to a path lands in the place of the path. -/
theorem lands_join (h : IsName name) (here : Place) (dir : Path) :
    (dir.join name).lands here = dir.lands here ++ [name] := by
  have habs : (dir.join name).isAbsolute = dir.isAbsolute := by
    by_cases hdir : dir.text = ""
    · have hempty : dir.isAbsolute = false := by simp [isAbsolute, hdir]
      rw [join_of_empty hdir, h.not_isAbsolute, hempty]
    · exact h.isAbsolute_join hdir
  unfold lands
  rw [h.names_join, habs, List.foldl_append, List.foldl_cons, List.foldl_nil, descend,
    if_neg h.noParent]

end IsName

end Path

namespace Files
variable {fs out : Files} {p x : Path} {q : Place}

theorem follow_eq_foldl {start : Place} {segments : List String}
    (h : fs.follow start segments = .ok q) :
    (segments.filter fun s => !Path.isNoise s).foldl Path.descend start = q := by
  induction segments generalizing start with
  | nil => exact Except.ok.inj h
  | cons s rest ih =>
    unfold follow at h
    split at h
    · exact absurd h nofun
    · split_ifs at h with hnoise hparent
      · rw [List.filter_cons_of_neg (by simp [hnoise])]
        exact ih h
      · rw [List.filter_cons_of_pos (by simpa using hnoise), List.foldl_cons, Path.descend,
          if_pos hparent]
        exact ih h
      · rw [List.filter_cons_of_pos (by simpa using hnoise), List.foldl_cons, Path.descend,
          if_neg hparent]
        exact ih h
    · exact absurd h nofun

theorem lands_of_locate (h : fs.locate p = .ok q) : p.lands fs.here = q :=
  follow_eq_foldl (follow_of_locate h)

theorem holds_of_isFile (h : fs.isFile p = true) : fs.holds p = true := by
  obtain ⟨q, bytes, hq, hbytes⟩ := contents_of_isFile h
  obtain ⟨e, he, -⟩ := Option.bind_eq_some_iff.mp hbytes
  exact holds_iff.mpr ⟨q, e, hq, he⟩

/-! ## Paths apart -/

/-- Neither written alike nor leading to one place. -/
structure Apart (fs : Files) (p x : Path) : Prop where
  unlike : p.same x = false
  elsewhere : fs.samePlace p x = false

/-- No file that is there goes by the path. -/
def Vacant (fs : Files) (p : Path) : Prop := ∀ x, fs.holds x = true → fs.Apart p x

theorem Apart.of_lands (h : p.lands fs.here ≠ x.lands fs.here) : fs.Apart p x where
  unlike := Bool.eq_false_iff.mpr fun hsame => h (Path.lands_eq_of_same hsame fs.here)
  elsewhere := Bool.eq_false_iff.mpr fun hplace => by
    obtain ⟨q, hq, hq'⟩ := samePlace_iff.mp hplace
    exact h ((lands_of_locate hq).trans (lands_of_locate hq').symm)

theorem Apart.ne (h : fs.Apart p x) : p ≠ x := by
  rintro rfl
  exact absurd h.unlike (by simp [Path.same])

theorem Apart.symm (h : fs.Apart p x) : fs.Apart x p where
  unlike := by
    rw [← h.unlike, Path.same, Path.same, Bool.beq_comm]
  elsewhere := Bool.eq_false_iff.mpr fun hplace => by
    obtain ⟨q, hq, hq'⟩ := samePlace_iff.mp hplace
    exact absurd (samePlace_iff.mpr ⟨q, hq', hq⟩) (by simp [h.elsewhere])

theorem Apart.sameTree (h : fs.Apart p x) (htree : fs.SameTree out) : out.Apart p x :=
  ⟨h.unlike, htree.samePlace_eq p x ▸ h.elsewhere⟩

/-- To write at a path leaves what is at a path apart from it. -/
theorem Apart.entry_iff (h : fs.Apart p x) (hout : fs.Touches out p) {e : Entry} :
    out.entry x = .ok e ↔ fs.entry x = .ok e := by
  have hkeep (q : Place) (hq : fs.locate x = .ok q) : out.at? q = fs.at? q :=
    hout.elsewhere q fun hp => absurd (samePlace_iff.mpr ⟨q, hp, hq⟩) (by simp [h.elsewhere])
  simp only [entry_eq_ok]
  constructor
  · rintro ⟨q, hq, he⟩
    rw [hout.sameTree.locate_iff] at hq
    exact ⟨q, hq, hkeep q hq ▸ he⟩
  · rintro ⟨q, hq, he⟩
    exact ⟨q, hout.sameTree.locate_iff.mpr hq, (hkeep q hq).trans he⟩

/-- A path that leads to a place is vacant exactly if nothing is there. -/
theorem vacant_iff (h : fs.locate p = .ok q) : fs.Vacant p ↔ fs.holds p = false := by
  constructor
  · intro hvacant
    exact Bool.eq_false_iff.mpr fun hholds => (hvacant p hholds).ne rfl
  · intro hnone x hx
    obtain ⟨q', e, hq', he⟩ := holds_iff.mp hx
    have hother : q ≠ q' := by
      rintro rfl
      exact absurd (holds_iff.mpr ⟨q, e, h, he⟩) (by simp [hnone])
    exact .of_lands (by rwa [lands_of_locate h, lands_of_locate hq'])

end Files

end Montage
