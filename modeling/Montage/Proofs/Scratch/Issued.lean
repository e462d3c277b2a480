import Mathlib.Data.List.DropRight
import Montage.Proofs.Decimal.Padded
import Montage.Proofs.Files.Landing
import Montage.Proofs.Scratch

/-!
# Paths that were given out

The name of a path that a scratch directory gives out tells its number, as long as neither of its
parts has a dot of its own: in front of the only dot stand the random digits, and in front of those
the number. So such a path lands where no path lands that was given out before, whatever that one
was asked for.
-/

namespace Montage

/-- What stands behind the last `c`, and what stands in front of it. -/
theorem append_cons_inj_of_behind {c : Char} {a a' b b' : List Char} (hb : c ∉ b) (hb' : c ∉ b')
    (h : a ++ c :: b = a' ++ c :: b') : a = a' ∧ b = b' := by
  have hsplit {a b : List Char} (hb : c ∉ b) :
      (a ++ c :: b).rtakeWhile (· ≠ c) = b ∧ (a ++ c :: b).rdropWhile (· ≠ c) = a ++ [c] := by
    unfold List.rtakeWhile List.rdropWhile
    have hall : ∀ d ∈ b.reverse, decide (d ≠ c) = true := by
      intro d hd
      rw [decide_eq_true_eq]
      rintro rfl
      exact hb (List.mem_reverse.mp hd)
    rw [List.reverse_append, List.reverse_cons, List.append_assoc,
      List.takeWhile_append_of_pos hall, List.dropWhile_append_of_pos hall]
    simp
  constructor
  · exact List.append_cancel_right ((hsplit hb).2.symm.trans (h ▸ (hsplit hb').2))
  · exact (hsplit hb).1.symm.trans (h ▸ (hsplit hb').1)

namespace Path

/-- A path ends with the name that its text ends with. -/
theorem getLast?_names {p : Path} {front : List Char} {name : String} (hname : IsName name)
    (htext : p.text.toList = front ++ name.toList)
    (hfront : front = [] ∨ front.getLast? = some '/') :
    p.names.getLast? = some name := by
  have hkept : [name].filter (fun s => !isNoise s) = [name] := by simp [hname.noNoise]
  have hsegments : ∃ before, p.segments = before ++ [name] := by
    obtain rfl | hlast := hfront
    · refine ⟨[], ?_⟩
      rw [segments, String.toList_inj.mp htext, hname.splitAt, List.nil_append]
    · obtain ⟨before, rfl⟩ := List.getLast?_eq_some_iff.mp hlast
      refine ⟨Text.splitAt '/' (String.ofList before), ?_⟩
      rw [← hname.splitAt]
      unfold segments Text.splitAt
      rw [htext, List.append_assoc, List.singleton_append,
        Text.Chars.split_append_cons _ _ (by decide), List.map_append, String.toList_ofList]
  obtain ⟨before, hsegments⟩ := hsegments
  rw [names, hsegments, List.filter_append, hkept, List.getLast?_concat]

/-- What is joined to a path stands at its end, behind a slash if it is relative. -/
theorem text_join (dir : Path) (name : String) :
    ∃ front, (dir.join name).text.toList = front ++ name.toList ∧
      (front = [] ∨ front.getLast? = some '/') := by
  unfold join
  split_ifs with halone hslash
  · exact ⟨[], rfl, .inl rfl⟩
  · exact ⟨dir.text.toList, String.toList_append, .inr hslash⟩
  · refine ⟨dir.text.toList ++ ['/'], ?_, .inr List.getLast?_concat⟩
    rw [String.toList_append, String.toList_append]
    rfl

end Path

namespace Scratch
variable {s t : Scratch} {p : Path} {n : Nat} {stem extension : String}

/-- The random digits are such of base sixteen. -/
def Hex (s : Scratch) : Prop := ∀ n, ∀ c ∈ (s.uid n).toList, c ∈ "0123456789abcdef".toList

theorem hex_of_all
    (h : ∀ n, (s.uid n).toList.all "0123456789abcdef".toList.contains = true) : s.Hex :=
  fun n c hc => List.contains_iff_mem.mp (List.all_eq_true.mp (h n) c hc)

theorem Hex.not_mem (h : s.Hex) {c : Char} (hc : c ∉ "0123456789abcdef".toList) (n : Nat) :
    c ∉ (s.uid n).toList := fun hmem => hc (h n c hmem)

/-- The random digits have none of the marks that divide a path or a stem from a number. -/
structure Unmarked (s : Scratch) : Prop where
  slashless : ∀ n, '/' ∉ (s.uid n).toList
  noUnderscore : ∀ n, '_' ∉ (s.uid n).toList

theorem Hex.unmarked (h : s.Hex) : s.Unmarked where
  slashless := h.not_mem (by decide)
  noUnderscore := h.not_mem (by decide)

/-- One of the paths that were given out. The stem may be that of a path. -/
def Issued (s : Scratch) (p : Path) : Prop :=
  ∃ n stem extension, n < s.issued ∧ '/' ∉ String.toList extension ∧ p = s.pathAt n stem extension

/-- Outside of the directory. -/
def Outside (s : Scratch) (here : Place) (p : Path) : Prop :=
  ¬ s.dir.lands here <+: p.lands here

theorem Later.pathAt_eq (h : s.Later t) (n : Nat) (stem extension : String) :
    t.pathAt n stem extension = s.pathAt n stem extension := by
  simp only [pathAt, h.dir, h.uid]

theorem Later.issued_mono (h : s.Later t) (hp : s.Issued p) : t.Issued p := by
  obtain ⟨n, stem, extension, hn, hextension, rfl⟩ := hp
  exact ⟨n, stem, extension, Nat.lt_of_lt_of_le hn h.issued, hextension, (h.pathAt_eq ..).symm⟩

theorem Later.trans {u : Scratch} (h : s.Later t) (k : t.Later u) : s.Later u :=
  ⟨k.dir.trans h.dir, k.uid.trans h.uid, Nat.le_trans h.issued k.issued⟩

/-- The last name of a path that was given out holds its number, whatever the stem. -/
theorem exists_getLast?_names (hs : s.Unmarked) (n : Nat) (stem : String)
    (hextension : '/' ∉ extension.toList) :
    ∃ base, Path.IsName (s.nameAt n base extension) ∧
      (s.pathAt n stem extension).names.getLast? = some (s.nameAt n base extension) := by
  let isSlashless : Char → Bool := (· ≠ '/')
  let base := String.ofList (stem.toList.rtakeWhile isSlashless)
  have hbase : '/' ∉ base.toList := by
    rw [String.toList_ofList]
    intro hmem
    exact absurd (List.mem_rtakeWhile_imp hmem) (by decide)
  have hsplit : stem.toList = stem.toList.rdropWhile isSlashless ++ base.toList := by
    rw [String.toList_ofList, List.rdropWhile_append_rtakeWhile]
  obtain ⟨front, htext, hfront⟩ := Path.text_join s.dir (s.nameAt n stem extension)
  have htext' : (s.pathAt n stem extension).text.toList =
      (front ++ stem.toList.rdropWhile isSlashless) ++ (s.nameAt n base extension).toList := by
    rw [show s.pathAt n stem extension = s.dir.join (s.nameAt n stem extension) from rfl, htext,
      List.append_assoc]
    simp only [nameAt, String.toList_append, List.append_assoc]
    rw [← List.append_assoc (stem.toList.rdropWhile isSlashless), ← hsplit]
  have hname := isName_nameAt hs.slashless n hbase hextension
  refine ⟨base, hname, Path.getLast?_names hname htext' ?_⟩
  · by_cases hdrop : stem.toList.rdropWhile isSlashless = []
    · rw [hdrop, List.append_nil]
      exact hfront
    · right
      have hlast := List.rdropWhile_last_not isSlashless stem.toList hdrop
      rw [List.getLast?_append_of_ne_nil _ hdrop, List.getLast?_eq_getLast_of_ne_nil hdrop]
      simpa [isSlashless] using hlast

/-- What stands in front of the extension tells the number. -/
theorem number_of_front (hs : s.Unmarked) {m n : Nat} {base base' : String}
    (h : (base ++ "_" ++ padded 3 m ++ "_" ++ s.uid m).toList =
      (base' ++ "_" ++ padded 3 n ++ "_" ++ s.uid n).toList) : m = n := by
  have hunderscore (k : Nat) : '_' ∉ (padded 3 k).toList := not_mem_padded (by decide) 3 k
  have hdigits : (base ++ "_" ++ padded 3 m).toList ++ '_' :: (s.uid m).toList =
      (base' ++ "_" ++ padded 3 n).toList ++ '_' :: (s.uid n).toList := by
    simpa using h
  obtain ⟨hnumber, -⟩ := append_cons_inj_of_behind (hs.noUnderscore m)
    (hs.noUnderscore n) hdigits
  have hnumber' : base.toList ++ '_' :: (padded 3 m).toList =
      base'.toList ++ '_' :: (padded 3 n).toList := by
    simpa using hnumber
  obtain ⟨-, hpadded⟩ := append_cons_inj_of_behind (hunderscore m) (hunderscore n) hnumber'
  exact padded_injective 3 (String.toList_inj.mp hpadded)

theorem toList_nameAt (s : Scratch) (n : Nat) (stem extension : String) :
    (s.nameAt n stem extension).toList =
      (stem ++ "_" ++ padded 3 n ++ "_" ++ s.uid n).toList ++ '.' :: extension.toList := by
  simp [nameAt]

/-- A name that has one dot tells its number. -/
theorem nameAt_number (hs : s.Hex) {m n : Nat} {base base' extension extension' : String}
    (hbase : '.' ∉ base.toList) (hextension : '.' ∉ extension.toList)
    (h : s.nameAt m base extension = s.nameAt n base' extension') : m = n := by
  have hfront : '.' ∉ (base ++ "_" ++ padded 3 m ++ "_" ++ s.uid m).toList := by
    have hdigits : '.' ∉ (padded 3 m).toList := not_mem_padded (by decide) 3 m
    simp [hbase, hdigits, hs.not_mem (c := '.') (by decide) m]
  have hchars := congrArg String.toList h
  rw [toList_nameAt, toList_nameAt] at hchars
  exact number_of_front hs.unmarked
    ((List.append_cons_inj_of_notMem hfront hextension).mp hchars).1

/-- So does a name of which the extension has no dot. -/
theorem nameAt_number_of_extension (hs : s.Unmarked) {m n : Nat}
    {base base' extension extension' : String} (hextension : '.' ∉ extension.toList)
    (hextension' : '.' ∉ extension'.toList)
    (h : s.nameAt m base extension = s.nameAt n base' extension') : m = n := by
  have hchars := congrArg String.toList h
  rw [toList_nameAt, toList_nameAt] at hchars
  exact number_of_front hs (append_cons_inj_of_behind hextension hextension' hchars).1

/-- Neither a dot nor a slash is in the text. -/
def Plain (text : String) : Prop := '.' ∉ text.toList ∧ '/' ∉ text.toList

instance (text : String) : Decidable (Plain text) := inferInstanceAs (Decidable (_ ∧ _))

/-- Paths with different numbers land at different places, whatever their stems. -/
theorem lands_pathAt_ne (hs : s.Unmarked) {m : Nat} (hmn : m ≠ n) (stem stem' : String)
    {extension' : String} (hextension : Plain extension) (hextension' : Plain extension')
    (here : Place) :
    (s.pathAt m stem extension).lands here ≠ (s.pathAt n stem' extension').lands here := by
  obtain ⟨base, hname, hlast⟩ := exists_getLast?_names hs m stem hextension.2
  obtain ⟨base', hname', hlast'⟩ := exists_getLast?_names hs n stem' hextension'.2
  have hend := Path.getLast?_lands hlast hname.noParent here
  have hend' := Path.getLast?_lands hlast' hname'.noParent here
  intro heq
  rw [heq, hend'] at hend
  exact hmn (nameAt_number_of_extension hs hextension.1 hextension'.1 (Option.some.inj hend).symm)

/-- A path that is asked for with plain parts lands where none lands that was given out before. -/
theorem Issued.lands_ne (h : s.Issued p) (hs : s.Hex) (hn : s.issued ≤ n) (hstem : Plain stem)
    (hextension : Plain extension) (here : Place) :
    (s.pathAt n stem extension).lands here ≠ p.lands here := by
  obtain ⟨m, stem', extension', hm, hextension', rfl⟩ := h
  obtain ⟨base', hname', hlast'⟩ := exists_getLast?_names hs.unmarked m stem' hextension'
  have hname := isName_nameAt hs.unmarked.slashless n hstem.2 hextension.2
  have hlast : ((s.pathAt n stem extension).lands here).getLast? =
      some (s.nameAt n stem extension) := by
    rw [show s.pathAt n stem extension = s.dir.join (s.nameAt n stem extension) from rfl,
      hname.lands_join, List.getLast?_concat]
  intro heq
  rw [heq, Path.getLast?_lands hlast' hname'.noParent] at hlast
  have hnumber := nameAt_number hs hstem.1 hextension.1 (Option.some.inj hlast).symm
  omega

/-- Nor where a path lands from outside the directory. -/
theorem Outside.lands_ne {here : Place} (h : s.Outside here p) (hs : s.Hex) (hstem : Plain stem)
    (hextension : Plain extension) : (s.pathAt n stem extension).lands here ≠ p.lands here := by
  have hname := isName_nameAt hs.unmarked.slashless n hstem.2 hextension.2
  intro heq
  apply h
  rw [← heq, show s.pathAt n stem extension = s.dir.join (s.nameAt n stem extension) from rfl,
    hname.lands_join]
  exact List.prefix_append _ _

end Scratch

end Montage
