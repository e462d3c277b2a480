import Montage.Proofs.Files.Basic
import Montage.Proofs.Text.Words

/-!
# Where paths lead

Where a path of a directory leads to that directory, the path with a name joined to it leads to that
name in the directory, or nowhere at all. Which of the two depends on the text of the path and on
the name alone, so that it is the same as long as the directory stays where it is. Paths that are
written alike do not lead to different places.
-/

namespace Montage

/-- A name that stands for itself in a path: it has no slash and is neither empty nor dots. -/
structure Path.IsName (name : String) : Prop where
  slashless : '/' ∉ name.toList
  noNoise : Path.isNoise name = false
  noParent : name ≠ ".."

namespace Path.IsName
variable {name : String}

theorem splitAt (h : IsName name) : Text.splitAt '/' name = [name] := by
  simp [Text.splitAt, Text.Chars.split_of_not_mem h.slashless]

theorem not_isAbsolute (h : IsName name) : (Path.mk name).isAbsolute = false := by
  unfold Path.isAbsolute
  rw [beq_eq_false_iff_ne]
  intro hhead
  exact h.slashless (List.mem_of_head? hhead)

theorem isAbsolute_join (h : IsName name) {dir : Path} (hdir : dir.text ≠ "") :
    (dir.join name).isAbsolute = dir.isAbsolute := by
  have hnil : dir.text.toList ≠ [] := by simpa using hdir
  unfold Path.join
  rw [h.not_isAbsolute]
  simp only [hdir, Bool.false_or, decide_false, Bool.false_eq_true, if_false]
  obtain ⟨c, cs, hcs⟩ := List.exists_cons_of_ne_nil hnil
  split
  · simp [Path.isAbsolute, hcs]
  · simp [Path.isAbsolute, hcs]

/-- The name is the last segment of the joined path. A slash at the end of the directory only adds
noise in front of it. -/
theorem segments_join (h : IsName name) {dir : Path} (hdir : dir.text ≠ "") :
    ∃ front, front ≠ [] ∧ (dir.join name).segments = front ++ [name] ∧
      (dir.segments = front ∨ dir.segments = front ++ [""]) := by
  have hsplit (s : List Char) :
      Text.splitAt '/' (String.ofList (s ++ '/' :: name.toList)) =
        Text.splitAt '/' (String.ofList s) ++ [name] := by
    rw [← h.splitAt]
    simp [Text.splitAt, Text.Chars.split_append_cons]
  have hfront (s : String) : Text.splitAt '/' s ≠ [] := by
    simp [Text.splitAt, Text.Chars.split_ne_nil]
  unfold Path.join Path.segments
  rw [h.not_isAbsolute]
  simp only [hdir, Bool.false_or, decide_false, Bool.false_eq_true, if_false]
  split
  · rename_i hlast
    obtain ⟨s, hs⟩ := List.getLast?_eq_some_iff.mp hlast
    have htext : dir.text = String.ofList (s ++ ['/']) := by
      rw [← hs, String.ofList_toList]
    have hjoin : dir.text ++ name = String.ofList (s ++ '/' :: name.toList) := by
      apply String.toList_inj.mp
      simp [htext]
    have hend : Text.splitAt '/' dir.text = Text.splitAt '/' (String.ofList s) ++ [""] := by
      rw [htext]
      simp [Text.splitAt, Text.Chars.split_append_cons, Text.Chars.split]
    rw [hjoin]
    exact ⟨Text.splitAt '/' (String.ofList s), hfront _, hsplit s, .inr hend⟩
  · have hjoin :
        dir.text ++ "/" ++ name = String.ofList (dir.text.toList ++ '/' :: name.toList) := by
      apply String.toList_inj.mp
      simp
    refine ⟨Text.splitAt '/' dir.text, hfront _, ?_, .inl rfl⟩
    rw [hjoin, hsplit, String.ofList_toList]

end Path.IsName

namespace Files

theorem follow_append (fs : Files) (p : Place) (first second : List String) :
    fs.follow p (first ++ second) = fs.follow p first >>= fun q => fs.follow q second := by
  induction first generalizing p with
  | nil => rfl
  | cons s rest ih =>
    simp only [List.cons_append, follow]
    cases fs.at? p with
    | none => rfl
    | some e =>
      cases e with
      | file bytes => rfl
      | program => rfl
      | directory =>
        dsimp only
        split
        · exact ih p
        split
        · exact ih p.dropLast
        split
        · rfl
        · exact ih (p ++ [s])

theorem text_ne_empty_of_locate {fs : Files} {p : Path} {q : Place} (h : fs.locate p = .ok q) :
    p.text ≠ "" := by
  intro hempty
  simp [locate, walk, unusable?, hempty] at h

theorem follow_of_locate {fs : Files} {p : Path} {q : Place} (h : fs.locate p = .ok q) :
    fs.follow (fs.start p) p.segments = .ok q := by
  unfold locate walk at h
  cases hu : unusable? p with
  | some e => simp [hu] at h
  | none => simpa [hu] using h

/-- Where a name in the directory at `d` leads. -/
theorem locate_join {fs : Files} {dir : Path} {d : Place} {name : String}
    (hd : fs.locate dir = .ok d) (hdir : fs.at? d = some .directory) (hname : Path.IsName name) :
    fs.locate (dir.join name) = match unusable? (dir.join name) with
      | some e => .error e
      | none => if nameLimit < name.utf8ByteSize then .error .tooLong else .ok (d ++ [name]) := by
  have hlast : fs.follow d [name] =
      if nameLimit < name.utf8ByteSize then .error .tooLong else .ok (d ++ [name]) := by
    simp [follow, hdir, hname.noNoise, hname.noParent]
  have htext := text_ne_empty_of_locate hd
  have hstart : fs.start (dir.join name) = fs.start dir := by
    simp only [start, hname.isAbsolute_join htext]
  have hfollow := follow_of_locate hd
  unfold locate walk
  cases unusable? (dir.join name) with
  | some e => rfl
  | none =>
    dsimp only
    rw [hstart, ← hlast]
    obtain ⟨front, -, hjoin, hdir' | hdir'⟩ := hname.segments_join htext
    · rw [hjoin, ← hdir', follow_append, hfollow]
      rfl
    · rw [hdir', follow_append] at hfollow
      rw [hjoin, follow_append]
      cases hq : fs.follow (fs.start dir) front with
      | error e => simp [hq, bind, Except.bind] at hfollow
      | ok q =>
        -- the empty segment behind the slash leads to where one is already
        have hqd : q = d := by
          simp only [hq, bind, Except.bind, follow] at hfollow
          split at hfollow
          · exact absurd hfollow (by simp)
          · simpa [Path.isNoise] using hfollow
          · exact absurd hfollow (by simp)
        rw [hqd]
        rfl

end Files

/-! ## Paths that are written alike -/

namespace Path

theorem slash_not_mem_of_mem_segments {p : Path} {s : String} (h : s ∈ p.segments) :
    '/' ∉ s.toList := by
  obtain ⟨w, hw, rfl⟩ := List.mem_map.mp h
  rw [String.toList_ofList]
  intro hin
  have hsep := Text.Chars.not_sep_of_mem_split _ hw '/' hin
  exact absurd hsep (by decide)

theorem slash_not_mem_segments (p : Path) : "/" ∉ p.segments := fun h =>
  slash_not_mem_of_mem_segments h (by decide)

/-- The segments that count. -/
def names (p : Path) : List String := p.segments.filter fun s => !isNoise s

theorem segments_of_isAbsolute {p : Path} (h : p.isAbsolute = true) :
    ∃ rest, p.segments = "" :: rest := by
  unfold isAbsolute at h
  unfold segments Text.splitAt
  cases hp : p.text.toList with
  | nil => simp [hp] at h
  | cons c cs =>
    have hc : c = '/' := by simpa [hp] using h
    exact ⟨(Text.Chars.split (· == '/') cs).map String.ofList, by simp [hc, Text.Chars.split]⟩

theorem components_eq (p : Path) :
    p.components =
      (if p.isAbsolute then ["/"] else if p.segments.head? = some "." then ["."] else []) ++
        p.names := by
  unfold components lead names
  cases hs : p.segments with
  | nil =>
    have hrel : p.isAbsolute = false := by
      rw [← Bool.not_eq_true]
      intro habs
      obtain ⟨rest, hrest⟩ := segments_of_isAbsolute habs
      simp [hs] at hrest
    simp [hrel]
  | cons s rest =>
    by_cases habs : p.isAbsolute = true
    · obtain ⟨rest', hrest⟩ := segments_of_isAbsolute habs
      obtain ⟨rfl, rfl⟩ := List.cons.inj (hs.symm.trans hrest)
      simp [habs, isNoise]
    · by_cases hdot : s = "."
      · simp [habs, hdot, isNoise]
      · simp [habs, hdot]

theorem mem_components {p : Path} {s : String} (h : s ∈ p.components) :
    s = "/" ∨ s = "." ∨ s ∈ p.segments := by
  rw [components_eq] at h
  rcases List.mem_append.mp h with hfront | hnames
  · split_ifs at hfront
    · exact .inl (List.mem_singleton.mp hfront)
    · exact .inr (.inl (List.mem_singleton.mp hfront))
    · exact absurd hfront List.not_mem_nil
  · exact .inr (.inr (List.mem_filter.mp hnames).1)

theorem isAbsolute_iff (p : Path) : p.isAbsolute = true ↔ "/" ∈ p.components := by
  have hnames : "/" ∉ p.names := fun h =>
    p.slash_not_mem_segments (List.mem_filter.mp h).1
  rw [components_eq]
  by_cases habs : p.isAbsolute = true
  · simp [habs]
  · simp only [habs, Bool.false_eq_true, if_false, false_iff, List.mem_append, not_or]
    refine ⟨?_, hnames⟩
    split_ifs
    · decide
    · simp

theorem names_eq (p : Path) : p.names = p.components.filter fun s => s ≠ "/" ∧ s ≠ "." := by
  have hall : ∀ s ∈ p.names, s ≠ "/" ∧ s ≠ "." := by
    intro s hs
    obtain ⟨hmem, hnoise⟩ := List.mem_filter.mp hs
    constructor
    · rintro rfl
      exact p.slash_not_mem_segments hmem
    · rintro rfl
      exact absurd hnoise (by decide)
  have hkept : (p.names.filter fun s => s ≠ "/" ∧ s ≠ ".") = p.names :=
    List.filter_eq_self.mpr fun s hs => by simpa using hall s hs
  rw [components_eq, List.filter_append, hkept]
  split_ifs
  · simp
  · simp
  · simp

theorem names_of_empty {dir : Path} (h : dir.text = "") : dir.names = [] := by
  simp [names, segments, Text.splitAt, Text.Chars.split, isNoise, h]

theorem join_of_empty {dir : Path} (h : dir.text = "") (name : String) :
    dir.join name = ⟨name⟩ := by
  simp [join, h]

theorem IsName.names_join {name : String} (h : IsName name) (dir : Path) :
    (dir.join name).names = dir.names ++ [name] := by
  have hkept : [name].filter (fun s => !isNoise s) = [name] := by simp [h.noNoise]
  by_cases hdir : dir.text = ""
  · rw [names_of_empty hdir, join_of_empty hdir, names, segments, h.splitAt, hkept,
      List.nil_append]
  · obtain ⟨front, -, hjoin, hsegments⟩ := h.segments_join hdir
    unfold names
    rw [hjoin, List.filter_append, hkept]
    obtain hsegments | hsegments := hsegments
    · rw [hsegments]
    · simp [hsegments, isNoise]

theorem IsName.components_join {dir : Path} {name : String} (h : IsName name)
    (hdir : dir.text ≠ "") : (dir.join name).components = dir.components ++ [name] := by
  obtain ⟨front, hfront, hjoin, hsegments⟩ := h.segments_join hdir
  have hhead : (dir.join name).segments.head? = dir.segments.head? := by
    obtain ⟨s, rest, rfl⟩ := List.exists_cons_of_ne_nil hfront
    rw [hjoin]
    rcases hsegments with hsegments | hsegments
    · rw [hsegments]
      rfl
    · rw [hsegments]
      rfl
  rw [components_eq, components_eq, h.isAbsolute_join hdir, hhead, h.names_join]
  exact (List.append_assoc ..).symm

/-- What is joined to a path is below it. -/
theorem IsName.isUnder_join {dir : Path} {name : String} (h : IsName name) :
    (dir.join name).isUnder dir = true := by
  unfold isUnder
  rw [List.isPrefixOf_iff_prefix]
  by_cases hdir : dir.text = ""
  · have hempty : dir.components = [] := by
      simp [components, lead, segments, Text.splitAt, Text.Chars.split, isAbsolute, isNoise, hdir]
    rw [hempty]
    exact List.nil_prefix
  · rw [h.components_join hdir]
    exact List.prefix_append _ _

theorem names_eq_of_same {p p' : Path} (h : p.same p' = true) : p.names = p'.names := by
  have hcomponents : p.components = p'.components := by simpa [same] using h
  rw [names_eq, names_eq, hcomponents]

/-- Joined names are written alike only if they are the same. -/
theorem IsName.eq_of_same {dir : Path} {a b : String} (ha : IsName a) (hb : IsName b)
    (hsame : (dir.join a).same (dir.join b) = true) : a = b := by
  have hlast {name : String} (h : IsName name) : (dir.join name).names.getLast? = some name := by
    rw [h.names_join, List.getLast?_concat]
  rw [← Option.some_inj, ← hlast ha, ← hlast hb, names_eq_of_same hsame]

end Path

namespace Files

/-- Noise on the way does not change where the way ends. -/
theorem follow_names {fs : Files} {p q : Place} {segments : List String}
    (h : fs.follow p segments = .ok q) :
    fs.follow p (segments.filter fun s => !Path.isNoise s) = .ok q := by
  induction segments generalizing p with
  | nil => exact h
  | cons s rest ih =>
    cases hp : fs.at? p with
    | none => simp [follow, hp] at h
    | some e =>
      cases e with
      | file bytes => simp [follow, hp] at h
      | program => simp [follow, hp] at h
      | directory =>
        by_cases hs : Path.isNoise s = true
        · rw [List.filter_cons_of_neg (by simp [hs])]
          exact ih (by simpa [follow, hp, hs] using h)
        · rw [List.filter_cons_of_pos (by simpa using hs)]
          simp only [follow, hp, hs, Bool.false_eq_true, if_false] at h ⊢
          split_ifs at h ⊢
          · exact ih h
          · exact ih h

/-- Paths that are written alike do not lead to different places. -/
theorem locate_inj_of_same {fs : Files} {p p' : Path} {q q' : Place} (hsame : p.same p' = true)
    (hq : fs.locate p = .ok q) (hq' : fs.locate p' = .ok q') : q = q' := by
  have hcomponents : p.components = p'.components := by simpa [Path.same] using hsame
  have habs : p.isAbsolute = p'.isAbsolute := by
    rw [Bool.eq_iff_iff, Path.isAbsolute_iff, Path.isAbsolute_iff, hcomponents]
  have hp := follow_names (follow_of_locate hq)
  have hp' := follow_names (follow_of_locate hq')
  have hstart : fs.start p = fs.start p' := by simp only [start, habs]
  have hsegments : (p.segments.filter fun s => !Path.isNoise s) =
      p'.segments.filter fun s => !Path.isNoise s := Path.names_eq_of_same hsame
  rw [hstart, hsegments] at hp
  exact Except.ok.inj (hp.symm.trans hp')

end Files

end Montage
