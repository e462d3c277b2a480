import Montage.Proofs.Files.Path

/-!
# What is below a directory

Each file below a directory is reached by a path of its own: the directory with the names on the way
from it to the file.
-/

namespace Montage

namespace Path.IsName
variable {name : String}

theorem ne_nil (h : IsName name) : name.toList ≠ [] := by
  intro hnil
  have hempty : name = "" := String.toList_inj.mp hnil
  exact absurd h.noNoise (by rw [hempty]; decide)

theorem not_isAbsolute_append (h : IsName name) (s : String) :
    (Path.mk (name ++ s)).isAbsolute = false := by
  obtain ⟨c, cs, hcs⟩ := List.exists_cons_of_ne_nil h.ne_nil
  have hslash : c ≠ '/' := fun hc => h.slashless (by simp [hcs, hc])
  simpa [isAbsolute, String.toList_append, hcs] using hslash

end Path.IsName

namespace Path

/-- What is joined to a directory is written behind it. -/
theorem exists_join {dir : Path} (hdir : dir.text ≠ "") :
    ∃ front, ∀ s, (Path.mk s).isAbsolute = false → dir.join s = ⟨front ++ s⟩ := by
  unfold join
  by_cases hlast : dir.text.toList.getLast? = some '/'
  · exact ⟨dir.text, fun s hs => by simp [hs, hdir, hlast]⟩
  · exact ⟨dir.text ++ "/", fun s hs => by simp [hs, hdir, hlast]⟩

theorem IsName.text_join_ne_empty {name : String} (h : IsName name) {dir : Path}
    (hdir : dir.text ≠ "") : (dir.join name).text ≠ "" := by
  obtain ⟨front, hfront⟩ := exists_join hdir
  rw [hfront name h.not_isAbsolute]
  intro hempty
  have hnil : (front ++ name).toList = [] := congrArg String.toList hempty
  rw [String.toList_append, List.append_eq_nil_iff] at hnil
  exact h.ne_nil hnil.2

/-- A way of several names is gone one name after the other. -/
theorem IsName.join_append_slash {name : String} (h : IsName name) {dir : Path}
    (hdir : dir.text ≠ "") {s : String} (hs : (Path.mk s).isAbsolute = false) :
    dir.join (name ++ "/" ++ s) = (dir.join name).join s := by
  obtain ⟨front, hfront⟩ := exists_join hdir
  have hlast : (front ++ name).toList.getLast? ≠ some '/' := by
    rw [String.toList_append, List.getLast?_append_of_ne_nil _ h.ne_nil]
    exact fun hslash => h.slashless (List.mem_of_getLast? hslash)
  have hne := h.text_join_ne_empty hdir
  rw [hfront name h.not_isAbsolute] at hne ⊢
  rw [String.append_assoc, hfront _ (h.not_isAbsolute_append _), join, if_neg (by simp [hs, hne]),
    if_neg hlast]
  simp [String.append_assoc]

theorem isAbsolute_intercalate {names : List String} (h : ∀ name ∈ names, IsName name) :
    (Path.mk ("/".intercalate names)).isAbsolute = false := by
  match names with
  | [] => rfl
  | [a] =>
    rw [String.intercalate_singleton]
    exact (h a List.mem_cons_self).not_isAbsolute
  | a :: b :: names =>
    rw [String.intercalate_cons_cons, String.append_assoc]
    exact (h a List.mem_cons_self).not_isAbsolute_append _

/-- The components of what is below a directory are those of the directory and the names. -/
theorem components_join_intercalate {dir : Path} (hdir : dir.text ≠ "") {names : List String}
    (hne : names ≠ []) (h : ∀ name ∈ names, IsName name) :
    (dir.join ("/".intercalate names)).components = dir.components ++ names := by
  induction names generalizing dir with
  | nil => exact absurd rfl hne
  | cons a names ih =>
    rw [List.forall_mem_cons] at h
    cases names with
    | nil => rw [String.intercalate_singleton, h.1.components_join hdir]
    | cons b names =>
      rw [String.intercalate_cons_cons, h.1.join_append_slash hdir (isAbsolute_intercalate h.2),
        ih (h.1.text_join_ne_empty hdir) (List.cons_ne_nil b names) h.2, h.1.components_join hdir,
        List.append_assoc, List.singleton_append]

end Path

namespace Files

/-- Each place is listed once, and the names on the way to it are names. -/
structure Sound (fs : Files) : Prop where
  places : (fs.entries.map Prod.fst).Nodup
  names : ∀ m ∈ fs.entries, ∀ name ∈ m.1, Path.IsName name

theorem under_eq {fs : Files} {root : Path} {d : Place} (hd : fs.locate root = .ok d)
    (hdirectory : fs.at? d = some .directory) : fs.under root = fs.entries.filterMap fun (p, e) =>
      if e ≠ .directory && d.isPrefixOf p && d ≠ p then
        some (root.join ("/".intercalate (p.drop d.length)))
      else none := by
  simp only [under, hd, hdirectory]

instance (name : String) : Decidable (Path.IsName name) :=
  decidable_of_iff ('/' ∉ name.toList ∧ Path.isNoise name = false ∧ name ≠ "..")
    ⟨fun h => ⟨h.1, h.2.1, h.2.2⟩, fun h => ⟨h.slashless, h.noNoise, h.noParent⟩⟩

/-- No two files below a directory have the same path, nor paths that are written alike. -/
theorem Sound.nodup_under {fs : Files} (h : fs.Sound) {root : Path}
    (hroot : fs.isDirectory root = true) : ((fs.under root).map Path.components).Nodup := by
  obtain ⟨d, hd, hdirectory⟩ := isDirectory_iff.mp hroot
  have hway {m : Place × Entry} (hm : m ∈ fs.entries) {p : Path}
      (hp : (if m.2 ≠ .directory && d.isPrefixOf m.1 && d ≠ m.1 then
        some (root.join ("/".intercalate (m.1.drop d.length))) else none) = some p) :
      m.1 = d ++ m.1.drop d.length ∧ p.components = root.components ++ m.1.drop d.length := by
    rw [Option.ite_none_right_eq_some] at hp
    obtain ⟨hkept, hp⟩ := hp
    simp only [Bool.and_eq_true, decide_eq_true_iff, List.isPrefixOf_iff_prefix] at hkept
    obtain ⟨⟨-, way, hway⟩, hne⟩ := hkept
    have hdrop : m.1.drop d.length = way := by rw [← hway, List.drop_left]
    have hnil : way ≠ [] := by
      rintro rfl
      exact hne (by rw [← hway, List.append_nil])
    have hnames : ∀ name ∈ way, Path.IsName name := fun name hname =>
      h.names m hm name (hway ▸ List.mem_append_right d hname)
    rw [hdrop] at hp ⊢
    obtain rfl := Option.some.inj hp
    exact ⟨hway.symm,
      Path.components_join_intercalate (text_ne_empty_of_locate hd) hnil hnames⟩
  have hplaces : fs.entries.Pairwise fun m n => m.1 ≠ n.1 := List.pairwise_map.mp h.places
  rw [under_eq hd hdirectory, List.Nodup, List.pairwise_map, List.pairwise_filterMap]
  refine hplaces.imp_of_mem fun hm hn hne p hp q hq hcomponents => ?_
  obtain ⟨hm, hp⟩ := hway hm hp
  obtain ⟨hn, hq⟩ := hway hn hq
  rw [hp, hq, List.append_cancel_left_eq] at hcomponents
  exact hne (by rw [hm, hn, hcomponents])

end Files

end Montage
