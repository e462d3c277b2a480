import Montage.Media.ClipList
import Montage.Proofs.Media.Quoting
import Montage.Proofs.Text.Lines

/-!
# Clip lists that are read back

A clip list has an entry on each line: the word behind `file` stands for the path of a clip. A quote
in a path closes the quotes, is escaped and opens them again, so that a path of any characters is
one word, and its characters are all literal. The list can be read one line at a time, if no path
has a line feed, and as a whole in any case, since a line feed between quotes ends no line.
-/

namespace Montage.ClipList

/-! ## Reading a clip list -/

/-- The path of a line whose quotes are read. A bare blank would end its word. -/
def path? : List (Char × Bool) → Option Path
  | ('f', false) :: ('i', false) :: ('l', false) :: ('e', false) :: (' ', false) :: word =>
    if word.any fun m => !m.2 && Text.isBlank m.1 then none
    else some ⟨String.ofList (word.map Prod.fst)⟩
  | _ => none

/-- The paths of the lines of a list. Nothing stands behind the last line feed. -/
def ofLines? (lines : List (List (Char × Bool))) : Option (List Path) :=
  if lines.getLast? = some [] then lines.dropLast.mapM path? else none

/-- The paths of a clip list that is read one line at a time. -/
def read? (text : String) : Option (List Path) :=
  ofLines? ((Text.Chars.lines text.toList).map (Quoting.scan false))

/-- The paths of a clip list that is read as a whole. Only a bare line feed ends a line. -/
def readAll? (text : String) : Option (List Path) :=
  ofLines? ((Quoting.scan false text.toList).splitOn ('\n', false))

/-! ## Lines -/

/-- The line of a path. -/
def entry (p : Path) : List Char :=
  'f' :: 'i' :: 'l' :: 'e' :: ' ' :: '\x27' :: p.text.toList.flatMap escapeChar ++ ['\x27']

/-- The line of a path, once its quotes are read. -/
def marked (p : Path) : List (Char × Bool) :=
  ('f', false) :: ('i', false) :: ('l', false) :: ('e', false) :: (' ', false) ::
    p.text.toList.map (·, true)

theorem scan_escape (s cs : List Char) :
    Quoting.scan true (s.flatMap escapeChar ++ cs) = s.map (·, true) ++ Quoting.scan true cs := by
  induction s with
  | nil => rfl
  | cons c s ih =>
    rw [List.flatMap_cons, List.append_assoc]
    by_cases hc : c = '\x27'
    · subst hc
      simp [escapeChar, Quoting.scan, ih]
    · simp [escapeChar, Quoting.scan, hc, ih]

theorem scan_entry (p : Path) (cs : List Char) :
    Quoting.scan false (entry p ++ cs) = marked p ++ Quoting.scan false cs := by
  have hquoted : Quoting.scan false ('\x27' :: (p.text.toList.flatMap escapeChar ++ '\x27' :: cs)) =
      p.text.toList.map (·, true) ++ Quoting.scan false cs := by
    rw [Quoting.scan_quote, scan_escape]
    simp [Quoting.scan]
  simp only [entry, marked, List.cons_append, List.append_assoc, List.nil_append]
  rw [Quoting.scan_cons (by decide), Quoting.scan_cons (by decide), Quoting.scan_cons (by decide),
    Quoting.scan_cons (by decide), Quoting.scan_cons (by decide), hquoted]

theorem path?_marked (p : Path) : path? (marked p) = some p := by
  simp [marked, path?, Function.comp_def]

theorem ofLines?_marked (ps : List Path) : ofLines? (ps.map marked ++ [[]]) = some ps := by
  rw [ofLines?, List.getLast?_concat, if_pos rfl, List.dropLast_concat, mapM_eq_some_iff,
    List.map_map]
  exact List.map_congr_left fun p _ => path?_marked p

theorem lineFeed_not_mem_entry {p : Path} (h : '\n' ∉ p.text.toList) : '\n' ∉ entry p := by
  have hflat : '\n' ∉ p.text.toList.flatMap escapeChar := by
    rw [List.mem_flatMap]
    rintro ⟨c, hc, hmem⟩
    have hne : '\n' ≠ c := fun heq => h (heq ▸ hc)
    unfold escapeChar at hmem
    split_ifs at hmem <;> simp [hne] at hmem
  simp [entry, hflat]

theorem toList_fileText (fs : Files) (clips : List Path) :
    (fileText fs clips).toList = Text.Chars.ended ((clips.map fs.absolute).map entry) := by
  have hline (p : Path) : (line p).toList = entry p ++ ['\n'] := by
    simp [line, entry]
  rw [fileText, String.toList_join, Text.Chars.ended, List.flatMap_map, List.flatMap_map,
    List.flatMap_map]
  exact congrArg (List.flatMap · clips) (funext fun p => hline (fs.absolute p))

/-- A clip list is read as the paths of the clips, made absolute, whatever characters but line feeds
they are made of. -/
theorem read?_fileText {fs : Files} {clips : List Path}
    (h : ∀ p ∈ clips, '\n' ∉ (fs.absolute p).text.toList) :
    read? (fileText fs clips) = some (clips.map fs.absolute) := by
  have hlines : ∀ l ∈ (clips.map fs.absolute).map entry, '\n' ∉ l := by
    rw [List.map_map, List.forall_mem_map]
    exact fun p hp => lineFeed_not_mem_entry (h p hp)
  have hscan : ((clips.map fs.absolute).map entry ++ [[]]).map (Quoting.scan false) =
      (clips.map fs.absolute).map marked ++ [[]] := by
    have hentry (p : Path) : Quoting.scan false (entry p) = marked p := by
      simpa [Quoting.scan] using scan_entry p []
    simp [hentry, Quoting.scan]
  rw [read?, toList_fileText, Text.Chars.lines_ended hlines, hscan]
  exact ofLines?_marked _

/-- Clips that are named by quotes and backslashes, below a directory with a blank and a hash. -/
theorem read?_fileText_apostrophes :
    let fs : Files := ⟨["it's #1"], []⟩
    let clips : List Path := [⟨"''.mp4"⟩, ⟨"/a\\'b c"⟩, ⟨"#'"⟩]
    (∀ p ∈ clips, '\n' ∉ (fs.absolute p).text.toList) ∧
      read? (fileText fs clips) =
        some [⟨"/it's #1/''.mp4"⟩, ⟨"/a\\'b c"⟩, ⟨"/it's #1/#'"⟩] := by
  intro fs clips
  have h : ∀ p ∈ clips, '\n' ∉ (fs.absolute p).text.toList := by decide +kernel
  exact ⟨h, (read?_fileText h).trans (by decide +kernel)⟩

end Montage.ClipList
