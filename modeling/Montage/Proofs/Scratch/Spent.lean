import Montage.Proofs.Files.Agree
import Montage.Proofs.Scratch.Issued

/-!
# What was given out stays

Paths with different numbers land at different places. So as long as a run writes to each path once,
when it has taken it, or else to places that are none of the scratch directory, nothing is at a path
before it is taken, and what was written there stays. And what can be written at a path can be
written at one with a lesser number, also in another run with as many random digits.
-/

namespace Montage

/-! ## How long names are -/

theorem utf8ByteSize_of_utf8Size {s : String} (h : ∀ c ∈ s.toList, c.utf8Size = 1) :
    s.utf8ByteSize = s.toList.length := by
  have hones : s.toList.map Char.utf8Size = List.replicate s.toList.length 1 :=
    List.map_eq_replicate_iff.mpr h
  rw [Text.utf8ByteSize_eq_sum, hones, List.sum_replicate_nat, Nat.mul_one]

theorem utf8Size_of_isDigit {c : Char} (h : c.isDigit = true) : c.utf8Size = 1 := by
  rw [Char.utf8Size_eq_one_iff]
  simp only [Char.isDigit, Bool.and_eq_true, decide_eq_true_eq] at h
  exact UInt32.le_trans h.2 (by decide)

theorem utf8ByteSize_padded_mono {m n : Nat} (h : m ≤ n) :
    (padded 3 m).utf8ByteSize ≤ (padded 3 n).utf8ByteSize := by
  have hdigits : (Decimal.digitsOf m).length ≤ (Decimal.digitsOf n).length := by
    have hpos : 0 < (Nat.toDigits 10 n).length := Nat.length_toDigits_pos
    refine (Nat.length_toDigits_le_iff (by decide) hpos).mpr ?_
    exact Nat.lt_of_le_of_lt h
      ((Nat.length_toDigits_le_iff (by decide) hpos).mp (Nat.le_refl _))
  have hsize (k : Nat) : (padded 3 k).utf8ByteSize = max 3 (Decimal.digitsOf k).length := by
    rw [utf8ByteSize_of_utf8Size fun c hc => utf8Size_of_isDigit (mem_padded hc), length_padded]
  rw [hsize, hsize]
  omega

namespace Path

/-- Whatever name is joined to a path, the same stands in front of it. -/
theorem exists_text_join_eq (dir : Path) :
    ∃ front : String, ∀ name, IsName name → (dir.join name).text = front ++ name := by
  by_cases hdir : dir.text = ""
  · exact ⟨"", fun name _ => by rw [join_of_empty hdir, String.empty_append]⟩
  · by_cases hslash : dir.text.toList.getLast? = some '/'
    · exact ⟨dir.text, fun name hname => by
        simp [join, hname.not_isAbsolute, hdir, hslash]⟩
    · exact ⟨dir.text ++ "/", fun name hname => by
        simp [join, hname.not_isAbsolute, hdir, hslash]⟩

theorem IsName.not_endsInSlash_join {name : String} (h : IsName name) (dir : Path) :
    (dir.join name).endsInSlash = false := by
  obtain ⟨front, htext, -⟩ := text_join dir name
  have hne : name.toList.reverse ≠ [] := by
    intro hnil
    have hempty : name = "" := by simpa using hnil
    have hnoise := h.noNoise
    rw [hempty] at hnoise
    exact absurd hnoise (by decide)
  obtain ⟨c, cs, hcs⟩ := List.exists_cons_of_ne_nil hne
  have hc : c ≠ '/' := by
    rintro rfl
    exact h.slashless (List.mem_reverse.mp (hcs ▸ List.mem_cons_self))
  unfold endsInSlash
  rw [htext, List.reverse_append, hcs, List.cons_append]
  split
  · rename_i heq
    exact absurd (List.cons.inj heq).1 hc
  · rfl

end Path

namespace Files
variable {fs : Files} {dir : Path} {d : Place} {name : String}

theorem unusable?_eq_none {p : Path} : unusable? p = none ↔
    '\x00' ∉ p.text.toList ∧ p.text.utf8ByteSize ≤ pathLimit ∧ p.text ≠ "" := by
  unfold unusable?
  split_ifs with hnul hlong hempty
  · exact ⟨nofun, fun h => absurd (by simpa using hnul) h.1⟩
  · exact ⟨nofun, fun h => absurd h.2.1 (Nat.not_le.mpr hlong)⟩
  · exact ⟨nofun, fun h => absurd hempty h.2.2⟩
  · exact ⟨fun _ => ⟨by simpa using hnul, Nat.le_of_not_lt hlong, hempty⟩, fun _ => rfl⟩

theorem usable_of_write_join {bytes : ByteArray} {out : Files} (hd : fs.locate dir = .ok d)
    (hdir : fs.at? d = some .directory) (hname : Path.IsName name)
    (hwrite : fs.write (dir.join name) bytes = .ok out) :
    unusable? (dir.join name) = none ∧ name.utf8ByteSize ≤ nameLimit := by
  have hlocate := locate_join hd hdir hname
  obtain ⟨q, hq, -⟩ := write_eq_ok hwrite
  rw [hq] at hlocate
  split at hlocate
  · exact absurd hlocate nofun
  · rename_i husable
    split_ifs at hlocate with hlong
    exact ⟨husable, Nat.le_of_not_lt hlong⟩

/-- Where nothing is, a file can be made under a name that is not too long, if the path is not. -/
theorem exists_write_join (hd : fs.locate dir = .ok d) (hdir : fs.at? d = some .directory)
    (hname : Path.IsName name) (hvacant : fs.holds (dir.join name) = false)
    (husable : unusable? (dir.join name) = none) (hshort : name.utf8ByteSize ≤ nameLimit)
    (bytes : ByteArray) : ∃ out, fs.write (dir.join name) bytes = .ok out := by
  have hq : fs.locate (dir.join name) = .ok (d ++ [name]) := by
    rw [locate_join hd hdir hname, husable]
    exact if_neg (Nat.not_lt.mpr hshort)
  have hnone : fs.at? (d ++ [name]) = none := by
    cases he : fs.at? (d ++ [name]) with
    | none => rfl
    | some e => exact absurd (holds_iff.mpr ⟨_, e, hq, he⟩) (by simp [hvacant])
  refine ⟨fs.set (d ++ [name]) (.file bytes), ?_⟩
  unfold write
  rw [if_neg (by simp [hname.not_endsInSlash_join])]
  simp [bind, Except.bind, hq, hnone]

end Files

namespace Scratch
variable {scratch other s t u : Scratch} {start fs mid out : Files} {p : Path} {here q : Place}
  {m n : Nat} {stem extension : String}

/-- In each path stand eight random digits. -/
structure Digits (s : Scratch) : Prop where
  hex : s.Hex
  width : ∀ n, (s.uid n).length = 8

theorem Digits.utf8ByteSize_uid (h : s.Digits) (n : Nat) : (s.uid n).utf8ByteSize = 8 := by
  rw [utf8ByteSize_of_utf8Size, String.length_toList, h.width]
  intro c hc
  have hall : "0123456789abcdef".toList.all (·.utf8Size == 1) = true := by decide
  exact eq_of_beq (List.all_eq_true.mp hall c (h.hex n c hc))

/-! ## The places of a scratch directory -/

/-- A place of which the path is still to be given out. -/
def Owns (s : Scratch) (here q : Place) : Prop :=
  ∃ n stem extension, s.issued ≤ n ∧ '/' ∉ String.toList stem ∧ Plain extension ∧
    (s.pathAt n stem extension).lands here = q

/-- A path that was given out between two states of the directory. -/
def Spent (s t : Scratch) (p : Path) : Prop :=
  ∃ n stem extension, s.issued ≤ n ∧ n < t.issued ∧ '/' ∉ String.toList stem ∧ Plain extension ∧
    p = s.pathAt n stem extension

theorem Spent.owns (h : s.Spent t p) (here : Place) : s.Owns here (p.lands here) := by
  obtain ⟨n, stem, extension, hn, -, hstem, hextension, rfl⟩ := h
  exact ⟨n, stem, extension, hn, hstem, hextension, rfl⟩

theorem Spent.mono (h : s.Spent t p) (ht : t.Later u) : s.Spent u p := by
  obtain ⟨n, stem, extension, hn, hlt, hrest⟩ := h
  exact ⟨n, stem, extension, hn, Nat.lt_of_lt_of_le hlt ht.issued, hrest⟩

theorem Spent.isUnder (h : s.Spent t p) (hs : s.Hex) : p.isUnder s.dir = true := by
  obtain ⟨n, stem, extension, -, -, hstem, hextension, rfl⟩ := h
  exact (isName_nameAt hs.unmarked.slashless n hstem hextension.2).isUnder_join

theorem lands_pathAt (hs : s.Hex) (n : Nat) (hstem : '/' ∉ stem.toList)
    (hextension : Plain extension) (here : Place) :
    (s.pathAt n stem extension).lands here = s.dir.lands here ++ [s.nameAt n stem extension] :=
  (isName_nameAt hs.unmarked.slashless n hstem hextension.2).lands_join here s.dir

/-- The places of a directory are right below it, under names with an underscore. -/
theorem Owns.exists_name (h : s.Owns here q) (hs : s.Hex) :
    ∃ name, '_' ∈ String.toList name ∧ q = s.dir.lands here ++ [name] := by
  obtain ⟨n, stem, extension, -, hstem, hextension, rfl⟩ := h
  exact ⟨s.nameAt n stem extension, by simp [nameAt], lands_pathAt hs n hstem hextension here⟩

/-! ## A run on its way -/

/-- A run that began with some files has come to others: they agree but at some places, and nothing
is at the paths that are still to be given out. -/
structure Underway (scratch : Scratch) (changed : Place → Prop) (start : Files) (s : Scratch)
    (fs : Files) : Prop where
  later : scratch.Later s
  agree : start.Agree changed fs
  vacant : ∀ n stem extension, s.issued ≤ n → '/' ∉ String.toList stem → Plain extension →
    fs.holds (scratch.pathAt n stem extension) = false

theorem Ready.underway (h : scratch.Ready start) (changed : Place → Prop) :
    Underway scratch changed start scratch start where
  later := .refl scratch
  agree := .refl start
  vacant n stem extension hn hstem hextension := h.fresh n hn stem extension hstem hextension.2

/-- A run goes on, and keeps what is at the paths that were given out. -/
structure Goes (scratch : Scratch) (changed : Place → Prop) (start : Files) (s : Scratch)
    (fs : Files) (t : Scratch) (out : Files) : Prop where
  later : s.Later t
  underway : Underway scratch changed start t out
  kept : ∀ p, scratch.Spent s p → ∀ e, out.entry p = .ok e ↔ fs.entry p = .ok e

variable {changed : Place → Prop}

theorem Underway.here_eq (h : Underway scratch changed start s fs) : fs.here = start.here :=
  h.agree.tree.1.here

/-- Paths are given out. -/
theorem Underway.goes (h : Underway scratch changed start s fs) (ht : s.Later t) :
    Goes scratch changed start s fs t fs where
  later := ht
  underway := ⟨h.later.trans ht, h.agree, fun n stem extension hn =>
    h.vacant n stem extension (Nat.le_trans ht.issued hn)⟩
  kept _ _ _ := Iff.rfl

/-- A path is written to that was given out on the way. -/
theorem Goes.touch (h : Goes scratch changed start s fs t mid) (hscratch : scratch.Hex)
    (hchanged : ∀ q, scratch.Owns start.here q → changed q) (hn : s.issued ≤ n)
    (hlt : n < t.issued) (hbegun : scratch.issued ≤ n) (hstem : '/' ∉ stem.toList)
    (hextension : Plain extension) (hout : mid.Touches out (scratch.pathAt n stem extension)) :
    Goes scratch changed start s fs t out := by
  have hentry {m : Nat} {stem' extension' : String} (hmn : n ≠ m)
      (hextension' : Plain extension') (e : Entry) :
      out.entry (scratch.pathAt m stem' extension') = .ok e ↔
        mid.entry (scratch.pathAt m stem' extension') = .ok e :=
    (Files.Apart.of_lands (lands_pathAt_ne hscratch.unmarked hmn stem stem' hextension hextension'
      mid.here)).entry_iff hout
  have hagree : mid.Agree changed out := .of_touches hout fun q hq => hchanged q
    ⟨n, stem, extension, hbegun, hstem, hextension,
      h.underway.here_eq ▸ Files.lands_of_locate hq⟩
  refine ⟨h.later, ⟨h.underway.later, h.underway.agree.trans hagree, ?_⟩, ?_⟩
  · intro m stem' extension' hm hstem' hextension'
    rw [Files.holds_congr (hentry (by omega) hextension')]
    exact h.underway.vacant m stem' extension' hm hstem' hextension'
  · rintro p ⟨m, stem', extension', hfirst, hm, hstem', hextension', rfl⟩ e
    rw [hentry (by omega) hextension']
    exact h.kept _ ⟨m, stem', extension', hfirst, hm, hstem', hextension', rfl⟩ e

/-- A place is written to that is none of the scratch directory. -/
theorem Underway.goes_elsewhere (h : Underway scratch changed start s fs)
    (hp : ¬ scratch.Owns start.here (p.lands start.here)) (hchanged : changed (p.lands start.here))
    (hout : fs.Touches out p) : Goes scratch changed start s fs s out := by
  rw [← h.here_eq] at hp hchanged
  have hentry {p' : Path} (hp' : scratch.Owns fs.here (p'.lands fs.here)) (e : Entry) :
      out.entry p' = .ok e ↔ fs.entry p' = .ok e := by
    have hapart : fs.Apart p p' := .of_lands fun heq => hp (heq ▸ hp')
    exact hapart.entry_iff hout
  have hagree : fs.Agree changed out :=
    .of_touches hout fun q hq => Files.lands_of_locate hq ▸ hchanged
  refine ⟨.refl s, ⟨h.later, h.agree.trans hagree, ?_⟩, fun p' hp' => hentry (hp'.owns fs.here)⟩
  intro n stem extension hn hstem hextension
  rw [Files.holds_congr (hentry ⟨n, stem, extension, Nat.le_trans h.later.issued hn, hstem,
    hextension, rfl⟩)]
  exact h.vacant n stem extension hn hstem hextension

theorem Goes.trans (h : Goes scratch changed start s fs t mid)
    (k : Goes scratch changed start t mid u out) : Goes scratch changed start s fs u out where
  later := h.later.trans k.later
  underway := k.underway
  kept p hp e := (k.kept p (hp.mono h.later) e).trans (h.kept p hp e)

/-! ## Writing at a lesser number -/

/-- Where a path can be written, one with a number that is not greater can be, also with other
random digits, if they are as many. -/
theorem exists_write_pathAt (hdigits : scratch.Digits) (hdigits' : other.Digits)
    (hdir : other.dir = scratch.dir) (hdirectory : start.isDirectory scratch.dir = true)
    (htree : start.SameTree fs) (htree' : start.SameTree mid) (hmn : m ≤ n)
    (hstem : '/' ∉ stem.toList) (hextension : Plain extension)
    (hvacant : mid.holds (other.pathAt m stem extension) = false) {bytes : ByteArray}
    (hwrite : fs.write (scratch.pathAt n stem extension) bytes = .ok out) (bytes' : ByteArray) :
    ∃ out', mid.write (other.pathAt m stem extension) bytes' = .ok out' := by
  obtain ⟨d, hd, hplace⟩ := Files.isDirectory_iff.mp hdirectory
  have hname := isName_nameAt hdigits.hex.unmarked.slashless n hstem hextension.2
  have hname' := isName_nameAt hdigits'.hex.unmarked.slashless m hstem hextension.2
  have hd' : start.locate other.dir = .ok d := hdir ▸ hd
  obtain ⟨husable, hshort⟩ := Files.usable_of_write_join (htree.1.locate hd)
    (htree.1.directories d hplace) hname hwrite
  have hsize : (other.nameAt m stem extension).utf8ByteSize ≤
      (scratch.nameAt n stem extension).utf8ByteSize := by
    have hmono := utf8ByteSize_padded_mono hmn
    simp only [nameAt, String.utf8ByteSize_append, hdigits.utf8ByteSize_uid,
      hdigits'.utf8ByteSize_uid]
    omega
  refine Files.exists_write_join (htree'.1.locate hd') (htree'.1.directories d hplace) hname'
    hvacant ?_ (Nat.le_trans hsize hshort) bytes'
  obtain ⟨front, htext⟩ := Path.exists_text_join_eq scratch.dir
  rw [Files.unusable?_eq_none, htext _ hname] at husable
  rw [Files.unusable?_eq_none, hdir, htext _ hname']
  obtain ⟨hnul, hlong, -⟩ := husable
  refine ⟨?_, ?_, ?_⟩
  · have hzero : '\x00' ∉ (padded 3 m).toList := not_mem_padded (by decide) 3 m
    have hrandom := hdigits'.hex.not_mem (by decide : '\x00' ∉ _) m
    simp only [nameAt, String.toList_append, List.mem_append, not_or] at hnul ⊢
    exact ⟨hnul.1, ⟨⟨⟨⟨⟨hnul.2.1.1.1.1.1.1, by decide⟩, hzero⟩, by decide⟩, hrandom⟩, by decide⟩,
      hnul.2.2⟩
  · rw [String.utf8ByteSize_append] at hlong ⊢
    omega
  · intro hempty
    have hmem : '_' ∈ (front ++ other.nameAt m stem extension).toList := by simp [nameAt]
    rw [hempty] at hmem
    exact absurd hmem (by decide)

end Scratch

end Montage
