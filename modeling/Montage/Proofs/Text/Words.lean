import Mathlib.Algebra.BigOperators.Group.List.Basic
import Mathlib.Algebra.Ring.Nat
import Montage.Proofs.Lists
import Montage.Proofs.Text.Blank

/-!
# Words of a text

A text that is split at some characters can be split one character at a time: what stands in front
of it and what follows are split by themselves, and blanks at the ends of the text are blanks at the
ends of its parts. Of the runs between blanks, the words are those that
are not empty, so blanks at the ends of a text make no difference to its words, and words with a
space between them are the words of the text. No word has more characters than bytes.
-/

namespace Montage.Text

namespace Chars

theorem split_eq_splitOnP (sep : Char → Bool) (s : List Char) : split sep s = s.splitOnP sep := by
  induction s with
  | nil => exact List.splitOnP_nil.symm
  | cons c s ih =>
    rw [split, List.splitOnP_cons_eq_if_modifyHead, ← ih]
    split_ifs
    · rfl
    · obtain ⟨w, ws, hs⟩ := List.exists_cons_of_ne_nil (split_ne_nil sep s)
      rw [hs]
      rfl

/-- What follows a separator is split by itself. -/
theorem split_append_cons (sep : Char → Bool) (s : List Char) {c : Char} (hc : sep c = true)
    (t : List Char) : split sep (s ++ c :: t) = split sep s ++ split sep t := by
  rw [split_eq_splitOnP, split_eq_splitOnP, split_eq_splitOnP, List.splitOnP_append_cons s t hc]

theorem split_of_forall (sep : Char → Bool) {s : List Char} (hs : ∀ c ∈ s, sep c = false) :
    split sep s = [s] := by
  rw [split_eq_splitOnP, List.splitOnP_eq_singleton hs]

theorem split_of_not_mem {c : Char} {s : List Char} (h : c ∉ s) : split (· == c) s = [s] := by
  apply split_of_forall
  intro b hb
  rw [beq_eq_false_iff_ne]
  exact ne_of_mem_of_not_mem hb h

theorem not_sep_of_mem_split (sep : Char → Bool) {s w : List Char} (hw : w ∈ split sep s) :
    ∀ c ∈ w, sep c = false := by
  rw [split_eq_splitOnP] at hw
  exact fun c hc => (mem_splitOnP hw c hc).2

/-- A character that does not separate is the end of the last part. -/
theorem split_concat (sep : Char → Bool) (s : List Char) {c : Char} (hc : sep c = false) :
    ∃ ws w, split sep s = ws ++ [w] ∧ split sep (s ++ [c]) = ws ++ [w ++ [c]] := by
  induction s with
  | nil => exact ⟨[], [], rfl, by simp [split, hc]⟩
  | cons b s ih =>
    obtain ⟨ws, w, hs, hsc⟩ := ih
    simp only [List.cons_append, split, hs, hsc]
    split_ifs
    · exact ⟨[] :: ws, w, rfl, rfl⟩
    · cases ws with
      | nil => exact ⟨[], b :: w, rfl, rfl⟩
      | cons v vs => exact ⟨(b :: v) :: vs, w, rfl, rfl⟩

theorem trim_cons_of_isBlank {c : Char} (hc : isBlank c = true) (s : List Char) :
    trim (c :: s) = trim s := by
  rw [trim_eq_rdropWhile, List.dropWhile_cons_of_pos hc, trim_eq_rdropWhile]

theorem trim_concat_of_isBlank (s : List Char) {c : Char} (hc : isBlank c = true) :
    trim (s ++ [c]) = trim s := by
  rw [trim_eq_rdropWhile, trim_eq_rdropWhile, List.dropWhile_append]
  split_ifs with hempty
  · rw [List.dropWhile_cons_of_pos hc, List.isEmpty_iff.mp hempty]
    rfl
  · rw [List.rdropWhile_concat_pos _ _ _ hc]

section
variable {sep : Char → Bool} (hsep : ∀ c, isBlank c = true → sep c = false)
include hsep

theorem map_trim_split_dropWhile (s : List Char) :
    (split sep (s.dropWhile isBlank)).map trim = (split sep s).map trim := by
  induction s with
  | nil => rfl
  | cons c s ih =>
    rw [List.dropWhile_cons]
    split_ifs with hc
    · obtain ⟨w, ws, hs⟩ := List.exists_cons_of_ne_nil (split_ne_nil sep s)
      have hfront : split sep (c :: s) = (c :: w) :: ws := by
        rw [split, if_neg (by simp [hsep c hc]), hs]
      rw [ih, hs, hfront, List.map_cons, List.map_cons, trim_cons_of_isBlank hc]
    · rfl

theorem map_trim_split_rdropWhile (s : List Char) :
    (split sep (s.rdropWhile isBlank)).map trim = (split sep s).map trim := by
  induction s using List.reverseRecOn with
  | nil => rfl
  | append_singleton s c ih =>
    rw [List.rdropWhile_concat]
    split_ifs with hc
    · obtain ⟨ws, w, hs, hsc⟩ := split_concat sep s (hsep c hc)
      rw [ih, hs, hsc, List.map_append, List.map_append, List.map_singleton, List.map_singleton,
        trim_concat_of_isBlank w hc]
    · rfl

/-- Blanks at the ends of a text are at the ends of its parts, unless the text is split at them. -/
theorem map_trim_split_trim (s : List Char) :
    (split sep (trim s)).map trim = (split sep s).map trim := by
  rw [trim_eq_rdropWhile, map_trim_split_rdropWhile hsep, map_trim_split_dropWhile hsep]

end

/-- The non-blank runs of a text. -/
def runs (s : List Char) : List (List Char) := (split isBlank s).filter fun w => !w.isEmpty

theorem runs_append_cons (s : List Char) {c : Char} (hc : isBlank c = true) (t : List Char) :
    runs (s ++ c :: t) = runs s ++ runs t := by
  unfold runs
  rw [split_append_cons isBlank s hc, List.filter_append]

theorem runs_of_forall {s : List Char} (hne : s ≠ []) (h : ∀ c ∈ s, isBlank c = false) :
    runs s = [s] := by
  unfold runs
  rw [split_of_forall isBlank h]
  simpa using hne

theorem mem_runs {s w : List Char} (h : w ∈ runs s) : w ≠ [] ∧ ∀ c ∈ w, isBlank c = false := by
  obtain ⟨hsplit, hne⟩ := List.mem_filter.mp h
  exact ⟨by simpa using hne, not_sep_of_mem_split isBlank hsplit⟩

theorem runs_dropWhile (s : List Char) : runs (s.dropWhile isBlank) = runs s := by
  induction s with
  | nil => rfl
  | cons c s ih =>
    rw [List.dropWhile_cons]
    split_ifs with hc
    · rw [ih]
      exact (runs_append_cons [] hc s).symm
    · rfl

theorem runs_rdropWhile (s : List Char) : runs (s.rdropWhile isBlank) = runs s := by
  induction s using List.reverseRecOn with
  | nil => rfl
  | append_singleton s c ih =>
    rw [List.rdropWhile_concat]
    split_ifs with hc
    · rw [ih, runs_append_cons s hc []]
      exact (List.append_nil _).symm
    · rfl

theorem runs_trim (s : List Char) : runs (trim s) = runs s := by
  rw [trim_eq_rdropWhile, runs_rdropWhile, runs_dropWhile]

end Chars

/-- A text without blanks that is not empty. -/
structure IsWord (w : String) : Prop where
  ne_nil : w.toList ≠ []
  solid : ∀ c ∈ w.toList, isBlank c = false

theorem isWord_natText (n : Nat) : IsWord (toString n) :=
  ⟨natText_ne_nil n, fun _ hc => isBlank_of_mem_natText hc⟩

theorem IsWord.not_mem {w : String} (h : IsWord w) {c : Char} (hc : isBlank c = true) :
    c ∉ w.toList := by
  intro hmem
  rw [h.solid c hmem] at hc
  exact absurd hc Bool.false_ne_true

theorem words_eq (s : String) : words s = (Chars.runs s.toList).map String.ofList := rfl

theorem words_trim (s : String) : words (trim s) = words s := by
  rw [words_eq, words_eq, trim, String.toList_ofList, Chars.runs_trim]

theorem words_of_isBlankText {s : String} (h : isBlankText s = true) : words s = [] := by
  rw [← words_trim, trim_of_isBlankText h]
  rfl

theorem isWord_of_mem_words {s w : String} (h : w ∈ words s) : IsWord w := by
  obtain ⟨cs, hcs, rfl⟩ := List.mem_map.mp h
  obtain ⟨hne, hsolid⟩ := Chars.mem_runs hcs
  exact ⟨by rwa [String.toList_ofList], by rwa [String.toList_ofList]⟩

theorem IsWord.words_eq {w : String} (h : IsWord w) : words w = [w] := by
  rw [Text.words_eq, Chars.runs_of_forall h.ne_nil h.solid, List.map_singleton,
    String.ofList_toList]

theorem words_append_space (s t : String) : words (s ++ " " ++ t) = words s ++ words t := by
  have hspace : (s ++ " " ++ t).toList = s.toList ++ ' ' :: t.toList := by
    simp [String.toList_append]
  rw [words_eq, hspace, Chars.runs_append_cons _ (by decide), List.map_append]
  rfl

/-- Words with a space between them are the words of the text. -/
theorem words_intercalate {ws : List String} (h : ∀ w ∈ ws, IsWord w) :
    words (" ".intercalate ws) = ws := by
  induction ws with
  | nil => rw [String.intercalate_nil]; rfl
  | cons w ws ih =>
    rw [List.forall_mem_cons] at h
    cases ws with
    | nil => rw [String.intercalate_singleton, h.1.words_eq]
    | cons v vs =>
      rw [String.intercalate_cons_cons, words_append_space, ih h.2, h.1.words_eq,
        List.singleton_append]

/-! ## How long a text is -/

theorem utf8ByteSize_eq_sum (s : String) : s.utf8ByteSize = (s.toList.map Char.utf8Size).sum := by
  have hlist (cs : List Char) : (String.ofList cs).utf8ByteSize = (cs.map Char.utf8Size).sum := by
    induction cs with
    | nil => rfl
    | cons c cs ih =>
      have hsplit : String.ofList (c :: cs) = String.singleton c ++ String.ofList cs := by
        apply String.toList_inj.mp
        simp
      rw [hsplit, String.utf8ByteSize_append, String.utf8ByteSize_singleton, ih, List.map_cons,
        List.sum_cons]
  rw [← hlist s.toList, String.ofList_toList]

theorem length_le_utf8ByteSize (s : String) : s.length ≤ s.utf8ByteSize := by
  have hone : ∀ n ∈ s.toList.map Char.utf8Size, 1 ≤ n :=
    List.forall_mem_map.mpr fun c _ => c.utf8Size_pos
  rw [utf8ByteSize_eq_sum, ← String.length_toList, ← List.length_map (f := Char.utf8Size)]
  exact List.length_le_sum_of_one_le _ hone

end Montage.Text
