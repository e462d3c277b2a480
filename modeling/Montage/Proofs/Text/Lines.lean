import Montage.Proofs.Text.Words

/-!
# Lines of a text

A text is cut into lines at its line feeds. Lines that are written with a line feed behind each are
the lines of the text, and an empty one is left behind the last line feed. The runs of lines between
blank ones are the paragraphs of the text, and paragraphs that are written with an empty line
between them are the paragraphs of what is written, if none of their lines is blank.
-/

namespace Montage.Text.Chars

/-- The parts of a text between its line feeds. -/
def lines (s : List Char) : List (List Char) := s.splitOn '\n'

/-- Each line with a line feed behind it. -/
def ended (ls : List (List Char)) : List Char := ls.flatMap (· ++ ['\n'])

theorem ended_eq {ls : List (List Char)} (hne : ls ≠ []) :
    ended ls = ['\n'].intercalate ls ++ ['\n'] := by
  induction ls with
  | nil => exact absurd rfl hne
  | cons l ls ih =>
    cases ls with
    | nil => simp [ended]
    | cons m ls =>
      have hcons : ended (l :: m :: ls) = l ++ ['\n'] ++ ended (m :: ls) := List.flatMap_cons
      rw [hcons, List.intercalate_cons_cons, ih (List.cons_ne_nil m ls),
        List.append_assoc _ _ ['\n']]

theorem lines_append_cons (s t : List Char) : lines (s ++ '\n' :: t) = lines s ++ lines t :=
  List.splitOnP_append_cons s t (by decide)

theorem lines_ended {ls : List (List Char)} (h : ∀ l ∈ ls, '\n' ∉ l) :
    lines (ended ls) = ls ++ [[]] :=
  splitOn_flatMap h

theorem lines_intercalate {ls : List (List Char)} (h : ∀ l ∈ ls, '\n' ∉ l) (hne : ls ≠ []) :
    lines (['\n'].intercalate ls) = ls :=
  List.splitOn_intercalate '\n' h hne

/-- Lines with a line feed behind each are their text with one behind it. -/
theorem ended_lines (s : List Char) : ended (lines s) = s ++ ['\n'] := by
  have hne : lines s ≠ [] := List.splitOnP_ne_nil _ s
  rw [ended_eq hne, lines, List.intercalate_splitOn]

/-- A line has no line feed. -/
theorem lineFeed_not_mem {s l : List Char} (h : l ∈ lines s) : '\n' ∉ l := by
  intro hmem
  rw [lines, List.splitOn_eq_splitOnP] at h
  simpa using (mem_splitOnP h '\n' hmem).2

/-! ## Paragraphs -/

section
variable {blank : List Char → Bool}

/-- The runs of lines between blank ones. -/
def paragraphs (blank : List Char → Bool) (ls : List (List Char)) : List (List (List Char)) :=
  (ls.splitOnP blank).filter fun g => !g.isEmpty

theorem paragraphs_append_cons (ls ms : List (List Char)) {l : List Char} (hl : blank l = true) :
    paragraphs blank (ls ++ l :: ms) = paragraphs blank ls ++ paragraphs blank ms := by
  unfold paragraphs
  rw [List.splitOnP_append_cons ls ms hl, List.filter_append]

theorem paragraphs_of_forall {ls : List (List Char)} (hne : ls ≠ [])
    (h : ∀ l ∈ ls, blank l = false) : paragraphs blank ls = [ls] := by
  unfold paragraphs
  rw [List.splitOnP_eq_singleton h]
  simpa using hne

theorem mem_paragraphs {ls g : List (List Char)} (h : g ∈ paragraphs blank ls) :
    ∀ l ∈ g, l ∈ ls ∧ blank l = false :=
  mem_splitOnP (List.mem_of_mem_filter h)

/-- Paragraphs with an empty line between them. -/
def spaced (gs : List (List (List Char))) : List Char := ['\n'].intercalate (gs.map ended)

theorem spaced_cons_cons (g g' : List (List Char)) (gs : List (List (List Char))) :
    spaced (g :: g' :: gs) = ended g ++ '\n' :: spaced (g' :: gs) := by
  simp [spaced, List.intercalate_cons_cons]

/-- Paragraphs that are written with an empty line between them are read again. -/
theorem paragraphs_spaced (hnil : blank [] = true) {gs : List (List (List Char))}
    (h : ∀ g ∈ gs, g ≠ [] ∧ ∀ l ∈ g, '\n' ∉ l ∧ blank l = false) :
    paragraphs blank (lines (spaced gs)) = gs := by
  have hclosed {g : List (List Char)} (hg : g ∈ gs) : lines (ended g) = g ++ [[]] :=
    lines_ended fun l hl => ((h g hg).2 l hl).1
  have halone {g : List (List Char)} (hg : g ∈ gs) : paragraphs blank g = [g] :=
    paragraphs_of_forall (h g hg).1 fun l hl => ((h g hg).2 l hl).2
  have hempty : paragraphs blank [] = [] := by simp [paragraphs]
  induction gs with
  | nil => exact (paragraphs_append_cons [] [] hnil).trans (by rw [hempty]; rfl)
  | cons g gs ih =>
    cases gs with
    | nil =>
      have hspaced : spaced [g] = ended g := List.intercalate_singleton
      rw [hspaced, hclosed List.mem_cons_self, paragraphs_append_cons _ _ hnil,
        halone List.mem_cons_self, hempty, List.append_nil]
    | cons g' gs =>
      have hrest := ih (fun k hk => h k (List.mem_cons_of_mem g hk))
        (fun hk => hclosed (List.mem_cons_of_mem g hk))
        (fun hk => halone (List.mem_cons_of_mem g hk))
      rw [spaced_cons_cons, lines_append_cons, hclosed List.mem_cons_self, List.append_assoc,
        List.singleton_append, paragraphs_append_cons _ _ hnil, halone List.mem_cons_self, hrest,
        List.singleton_append]

end

end Montage.Text.Chars
