import Montage.Media.Arguments
import Montage.Time.Text
import Montage.Proofs.Media.Quoting

/-!
# Options of a filter

The media tool reads the options of a filter in two steps. The quotes of the whole text are read
first; in what is left, a backslash makes the next character literal and a bare colon parts the
options. A text that is escaped and put between quotes is read as it was, and the options behind it
as they are, if and only if it has no quote of its own: the backslash in front of a quote is literal
in the first step, so the quote closes the option, and what follows is read outside of quotes.
-/

namespace Montage.Filter

/-! ## Bare colons -/

/-- The options of a text whose quotes are read. A backslash with nothing behind it stands for
itself. -/
def options : List Char → List (List Char)
  | [] => [[]]
  | ['\\'] => [['\\']]
  | '\\' :: c :: cs => (options cs).modifyHead (c :: ·)
  | c :: cs => if c = ':' then [] :: options cs else (options cs).modifyHead (c :: ·)

theorem options_backslash (c : Char) (cs : List Char) :
    options ('\\' :: c :: cs) = (options cs).modifyHead (c :: ·) := by
  simp [options]

theorem options_colon (cs : List Char) : options (':' :: cs) = [] :: options cs := by
  simp [options]

theorem options_cons {c : Char} (hslash : c ≠ '\\') (hcolon : c ≠ ':') (cs : List Char) :
    options (c :: cs) = (options cs).modifyHead (c :: ·) := by
  rw [options.eq_4 _ _ (fun h _ => hslash h) fun _ _ h _ => hslash h, if_neg hcolon]

theorem exists_options_eq_cons (cs : List Char) : ∃ o os, options cs = o :: os := by
  apply List.exists_cons_of_ne_nil
  induction cs using options.induct with
  | case1 => simp [options]
  | case2 => simp [options]
  | case3 c cs ih => simpa [options_backslash] using ih
  | case4 cs _ _ ih => simp [options]
  | case5 c cs hlone hslash hcolon ih =>
    rw [options.eq_4 _ _ hlone hslash, if_neg hcolon]
    simpa using ih

theorem exists_of_modifyHead {c : Char} {cs o : List Char} {os : List (List Char)}
    (h : (options cs).modifyHead (c :: ·) = o :: os) :
    ∃ o', o = c :: o' ∧ options cs = o' :: os := by
  obtain ⟨o', os', hopts⟩ := exists_options_eq_cons cs
  rw [hopts, List.modifyHead_cons] at h
  obtain ⟨rfl, rfl⟩ := List.cons.inj h
  exact ⟨o', rfl, hopts⟩

/-- Up to a bare colon a text without backslashes is read by itself. -/
theorem options_append_colon {s : List Char} (hs : '\\' ∉ s) (cs : List Char) :
    options (s ++ ':' :: cs) = options s ++ options cs := by
  induction s with
  | nil => exact options_colon cs
  | cons c s ih =>
    rw [List.mem_cons, not_or] at hs
    by_cases hcolon : c = ':'
    · rw [hcolon, List.cons_append, options_colon, options_colon, ih hs.2, List.cons_append]
    · rw [List.cons_append, options_cons (Ne.symm hs.1) hcolon,
        options_cons (Ne.symm hs.1) hcolon, ih hs.2]
      obtain ⟨o, os, hopts⟩ := exists_options_eq_cons s
      rw [hopts, List.cons_append, List.modifyHead_cons, List.modifyHead_cons, List.cons_append]

/-- A text with neither backslashes nor colons is a part of one option. -/
theorem options_append {s : List Char} (hs : ∀ c ∈ s, c ≠ '\\' ∧ c ≠ ':') (cs : List Char) :
    options (s ++ cs) = (options cs).modifyHead (s ++ ·) := by
  induction s with
  | nil => exact (congrFun List.modifyHead_id _).symm
  | cons c s ih =>
    rw [List.forall_mem_cons] at hs
    rw [List.cons_append, options_cons hs.1.1 hs.1.2, ih hs.2, List.modifyHead_modifyHead]
    rfl

/-! ## An escaped text -/

theorem escapeChar_cases (c : Char) :
    escapeChar c = ['\\', c] ∨ c ≠ '\\' ∧ c ≠ ':' ∧ c ≠ '\x27' ∧ escapeChar c = [c] := by
  unfold escapeChar
  split_ifs with h
  · exact .inl rfl
  · simp only [Bool.or_eq_true, decide_eq_true_eq, not_or] at h
    exact .inr ⟨h.1.1, h.1.2, h.2, rfl⟩

/-- The second step undoes the escapes. -/
theorem options_escape (s cs : List Char) :
    options (s.flatMap escapeChar ++ cs) = (options cs).modifyHead (s ++ ·) := by
  induction s with
  | nil => exact (congrFun List.modifyHead_id _).symm
  | cons c s ih =>
    rw [List.flatMap_cons, List.append_assoc]
    obtain hesc | ⟨hslash, hcolon, -, hesc⟩ := escapeChar_cases c
    · rw [hesc, List.cons_append, List.singleton_append, options_backslash, ih,
        List.modifyHead_modifyHead]
      rfl
    · rw [hesc, List.singleton_append, options_cons hslash hcolon, ih, List.modifyHead_modifyHead]
      rfl

/-- So does the first step, outside of quotes. -/
theorem read_escape (s cs : List Char) :
    Quoting.read (s.flatMap escapeChar ++ cs) = s ++ Quoting.read cs := by
  induction s with
  | nil => rfl
  | cons c s ih =>
    rw [List.flatMap_cons, List.append_assoc]
    obtain hesc | ⟨hslash, -, hquote, hesc⟩ := escapeChar_cases c
    · rw [hesc, List.cons_append, List.singleton_append, Quoting.read_backslash, ih,
        List.cons_append]
    · rw [hesc, List.singleton_append, Quoting.read_cons ⟨hquote, hslash⟩, ih, List.cons_append]

theorem quote_not_mem_escape {s : List Char} (hs : '\x27' ∉ s) :
    '\x27' ∉ s.flatMap escapeChar := by
  rw [List.mem_flatMap]
  rintro ⟨c, hc, hmem⟩
  have hne : '\x27' ≠ c := fun h => hs (h ▸ hc)
  obtain hesc | ⟨-, -, -, hesc⟩ := escapeChar_cases c
  · simp [hesc, hne] at hmem
  · simp [hesc, hne] at hmem

/-- The first option of a text falls behind for good once it has lost a character: what stands in
front of the text here are quotes and backslashes, and nothing in the text can make up for them
before the option ends. -/
theorem options_ne_shifted {behind : List Char} (hbehind : ∀ c ∈ behind.head?, c = ':')
    (s ahead : List Char) (hne : ahead ≠ []) (hahead : ∀ c ∈ ahead, c = '\x27' ∨ c = '\\')
    (os : List (List Char)) : options (s ++ behind) ≠ (ahead ++ s) :: os := by
  intro h
  induction s using options.induct generalizing ahead with
  | case1 =>
    cases behind with
    | nil => simp [options, hne] at h
    | cons c cs =>
      obtain rfl := hbehind c rfl
      simp [options_colon, hne] at h
  | case2 =>
    obtain ⟨a, ahead, rfl⟩ := List.exists_cons_of_ne_nil hne
    cases behind with
    | nil => simp [options] at h
    | cons c cs =>
      obtain rfl := hbehind c rfl
      rw [List.singleton_append, options_backslash] at h
      obtain ⟨o, ho, -⟩ := exists_of_modifyHead h
      have ha := hahead a List.mem_cons_self
      rw [(List.cons.inj ho).1] at ha
      exact absurd ha (by decide)
  | case3 c cs ih =>
    obtain ⟨a, ahead, rfl⟩ := List.exists_cons_of_ne_nil hne
    rw [List.cons_append, List.cons_append, options_backslash] at h
    obtain ⟨o, ho, hopts⟩ := exists_of_modifyHead h
    obtain ⟨rfl, rfl⟩ := List.cons.inj ho
    rw [List.forall_mem_cons] at hahead
    refine ih (ahead ++ ['\\', a]) (by simp) ?_ (by simpa using hopts)
    simpa [or_imp, forall_and, and_comm] using hahead
  | case4 cs _ _ ih =>
    simp [options_colon, hne] at h
  | case5 c cs hlone hslash hcolon ih =>
    obtain ⟨a, ahead, rfl⟩ := List.exists_cons_of_ne_nil hne
    have hc : c ≠ '\\' := by
      rintro rfl
      cases cs with
      | nil => exact hlone rfl rfl
      | cons d ds => exact hslash d ds rfl rfl
    rw [List.cons_append, options_cons hc hcolon] at h
    obtain ⟨o, ho, hopts⟩ := exists_of_modifyHead h
    obtain ⟨rfl, rfl⟩ := List.cons.inj ho
    rw [List.forall_mem_cons] at hahead
    refine ih (ahead ++ [a]) (by simp) ?_ (by simpa using hopts)
    simpa [or_imp, forall_and, and_comm] using hahead

/-- Nor can they make up for a quote in front of the text that was lost with its backslash. -/
theorem options_backslash_ne {behind : List Char} (hbehind : ∀ c ∈ behind.head?, c = ':')
    (s : List Char) (os : List (List Char)) :
    options ('\\' :: (s ++ behind)) ≠ ('\x27' :: s) :: os := by
  intro h
  cases s with
  | nil =>
    cases behind with
    | nil => simp [options] at h
    | cons c cs =>
      obtain rfl := hbehind c rfl
      rw [List.nil_append, options_backslash] at h
      obtain ⟨o, ho, -⟩ := exists_of_modifyHead h
      exact absurd (List.cons.inj ho).1 (by decide)
  | cons c s =>
    rw [List.cons_append, options_backslash] at h
    obtain ⟨o, ho, hopts⟩ := exists_of_modifyHead h
    obtain ⟨rfl, rfl⟩ := List.cons.inj ho
    exact options_ne_shifted hbehind s ['\x27'] (by simp) (by simp) os hopts

/-! ## An option between quotes -/

/-- At the first quote of a text its option is closed, and what follows is read outside of quotes.
-/
theorem read_quote_inside {front : List Char} (hfront : '\x27' ∉ front) (back cs : List Char) :
    Quoting.read ('\x27' :: (front ++ '\x27' :: back).flatMap escapeChar ++ '\x27' :: cs) =
      front.flatMap escapeChar ++ '\\' :: (back ++ Quoting.read ('\x27' :: cs)) := by
  have hsplit : '\x27' :: (front ++ '\x27' :: back).flatMap escapeChar ++ '\x27' :: cs =
      '\x27' :: (front.flatMap escapeChar ++ ['\\']) ++
        '\x27' :: (back.flatMap escapeChar ++ '\x27' :: cs) := by
    simp [escapeChar]
  have hnot : '\x27' ∉ front.flatMap escapeChar ++ ['\\'] := by
    simpa using quote_not_mem_escape hfront
  rw [hsplit, Quoting.read_quoted hnot, read_escape, List.append_assoc, List.singleton_append]

theorem head?_read_quote {cs : List Char} (hcs : ∀ c ∈ cs.head?, c = ':') :
    ∀ c ∈ (Quoting.read ('\x27' :: cs)).head?, c = ':' := by
  cases cs with
  | nil => simp [Quoting.read, Quoting.scan]
  | cons c cs =>
    obtain rfl := hcs c rfl
    simp [Quoting.read, Quoting.scan]

section
variable {name s : List Char} (hname : ∀ c ∈ name, Quoting.IsPlain c ∧ c ≠ ':')
include hname

theorem read_name (cs : List Char) : Quoting.read (name ++ cs) = name ++ Quoting.read cs :=
  Quoting.read_append (fun c hc => (hname c hc).1) cs

theorem options_name (cs : List Char) :
    options (name ++ cs) = (options cs).modifyHead (name ++ ·) :=
  options_append (fun c hc => ⟨(hname c hc).1.2, (hname c hc).2⟩) cs

/-- A text without quotes is read as it was before it was escaped, up to its closing quote. -/
theorem options_read_quoted (hs : '\x27' ∉ s) (cs : List Char) :
    options (Quoting.read (name ++ ('\x27' :: s.flatMap escapeChar ++ '\x27' :: cs))) =
      (options (Quoting.read cs)).modifyHead (name ++ s ++ ·) := by
  rw [read_name hname, Quoting.read_quoted (quote_not_mem_escape hs), options_name hname,
    options_escape, List.modifyHead_modifyHead]
  simp [Function.comp_def]

/-- A text with a quote is not. -/
theorem options_read_ne (hs : '\x27' ∈ s) {cs : List Char} (hcs : ∀ c ∈ cs.head?, c = ':')
    (os : List (List Char)) :
    options (Quoting.read (name ++ ('\x27' :: s.flatMap escapeChar ++ '\x27' :: cs))) ≠
      (name ++ s) :: os := by
  obtain ⟨front, back, rfl, hfront⟩ := List.eq_append_cons_of_mem hs
  rw [read_name hname, read_quote_inside hfront, options_name hname, options_escape]
  obtain ⟨o, os', hopts⟩ :=
    exists_options_eq_cons ('\\' :: (back ++ Quoting.read ('\x27' :: cs)))
  rw [hopts, List.modifyHead_cons, List.modifyHead_cons]
  intro h
  have ho : o = '\x27' :: back := by simpa using (List.cons.inj h).1
  exact options_backslash_ne (head?_read_quote hcs) back os' (ho ▸ hopts)

end

/-! ## The options of a filter as they are written -/

/-- The options of a filter as they are read. -/
def readOptions (filter : String) : List String :=
  (options (Quoting.read filter.toList)).map String.ofList

/-- Options as they are read behind another one. -/
def readFollowing : List String → List String
  | [] => []
  | os => readOptions (":".intercalate os)

/-- What is written behind an option. -/
def following : List String → List Char
  | [] => []
  | os => ':' :: (":".intercalate os).toList

theorem toList_intercalate_cons (o : String) (os : List String) :
    (":".intercalate (o :: os)).toList = o.toList ++ following os := by
  cases os with
  | nil => simp [following]
  | cons o' os => simp [following, String.intercalate_cons_cons]

theorem head?_following (os : List String) : ∀ c ∈ (following os).head?, c = ':' := by
  cases os <;> simp [following]

theorem options_following (os : List String) :
    ∃ rest, options (Quoting.read (following os)) = [] :: rest ∧
      rest.map String.ofList = readFollowing os := by
  cases os with
  | nil => exact ⟨[], by simp [following, Quoting.read, Quoting.scan, options], rfl⟩
  | cons o os =>
    have hcolon : Quoting.IsPlain ':' := by decide
    refine ⟨options (Quoting.read (":".intercalate (o :: os)).toList), ?_, rfl⟩
    rw [following, Quoting.read_cons hcolon, options_colon]
    exact List.cons_ne_nil o os

/-- An option whose text is escaped and put between quotes is read as it was, with what follows as
it is, if and only if the text has no quote. -/
theorem readOptions_quoted_iff {name : String}
    (hname : ∀ c ∈ name.toList, Quoting.IsPlain c ∧ c ≠ ':') (s : String) (os : List String) :
    readOptions (":".intercalate ((name ++ "'" ++ escape s ++ "'") :: os)) =
      (name ++ s) :: readFollowing os ↔ '\x27' ∉ s.toList := by
  have htext : (":".intercalate ((name ++ "'" ++ escape s ++ "'") :: os)).toList =
      name.toList ++ ('\x27' :: s.toList.flatMap escapeChar ++ '\x27' :: following os) := by
    rw [toList_intercalate_cons]
    simp [escape]
  rw [readOptions, htext]
  constructor
  · intro h hs
    obtain ⟨o, rest, hopts, ho, -⟩ := List.map_eq_cons_iff.mp h
    have htoList : o = name.toList ++ s.toList := by
      rw [← String.toList_append, ← ho, String.toList_ofList]
    exact options_read_ne hname hs (head?_following os) rest (htoList ▸ hopts)
  · intro hs
    obtain ⟨rest, hrest, hfollowing⟩ := options_following os
    rw [options_read_quoted hname hs, hrest, List.modifyHead_cons, List.append_nil, List.map_cons,
      hfollowing, String.ofList_append, String.ofList_toList, String.ofList_toList]

variable {T : Type} [TimeScale T] [Spelled T]

/-- The option of a text overlay in front of its text. -/
def fontOption (font : Path) : String := "drawtext=fontfile='" ++ font.text ++ "'"

/-- The options of a text overlay behind its text. -/
def furtherOptions (p : TextOverlay T) : List String :=
  ["fontsize=" ++ toString p.fontSize.toNat, "fontcolor=" ++ p.fontColor, place p] ++
    shadowOptions p ++ borderOptions p ++ boxOptions p ++
    match p.start with
    | some start => [enable start p.stop]
    | none => []

theorem drawText_eq (p : TextOverlay T) (font : Path) :
    drawText p font = ":".intercalate
      (fontOption font :: ("text='" ++ escape p.text ++ "'") :: furtherOptions p) := by
  rfl

/-- A value that is put between quotes as it is keeps apart from the options behind it if it has no
quote and no backslash. -/
theorem readOptions_unescaped {name value : String} (hname : ∀ c ∈ name.toList, Quoting.IsPlain c)
    (hvalue : ∀ c ∈ value.toList, Quoting.IsPlain c) (o : String) (os : List String) :
    readOptions (":".intercalate ((name ++ "'" ++ value ++ "'") :: o :: os)) =
      readOptions (name ++ "'" ++ value ++ "'") ++ readOptions (":".intercalate (o :: os)) := by
  have hquote : '\x27' ∉ value.toList := fun h => (hvalue _ h).1 rfl
  have hread (cs : List Char) : Quoting.read ((name ++ "'" ++ value ++ "'").toList ++ cs) =
      name.toList ++ value.toList ++ Quoting.read cs := by
    have htext : (name ++ "'" ++ value ++ "'").toList ++ cs =
        name.toList ++ ('\x27' :: value.toList ++ '\x27' :: cs) := by
      simp
    rw [htext, Quoting.read_append hname, Quoting.read_quoted hquote, List.append_assoc]
  have halone : Quoting.read (name ++ "'" ++ value ++ "'").toList =
      name.toList ++ value.toList := by
    simpa [Quoting.read, Quoting.scan] using hread []
  have hslash : '\\' ∉ name.toList ++ value.toList := by
    rw [List.mem_append, not_or]
    exact ⟨fun h => (hname _ h).2 rfl, fun h => (hvalue _ h).2 rfl⟩
  have hcolon : Quoting.IsPlain ':' := by decide
  rw [readOptions, readOptions, readOptions, toList_intercalate_cons, hread, halone, following,
    Quoting.read_cons hcolon, options_append_colon hslash, List.map_append]
  exact List.cons_ne_nil o os

/-- A text without quotes, put into an overlay or naming a file of subtitles, is read from its
option as it is, and the other options are the same whatever the text; a text with a quote is not
read as it is, whatever the options behind it. -/
theorem escaped_read_iff :
    (∀ (s : String) (os : List String),
      readOptions (":".intercalate (("text='" ++ escape s ++ "'") :: os)) =
        ("text=" ++ s) :: readFollowing os ↔ '\x27' ∉ s.toList) ∧
    (∀ (p : TextOverlay T) (font : Path) (s : String),
      (∀ c ∈ font.text.toList, Quoting.IsPlain c) →
      (readOptions (drawText { p with text := s } font) =
        readOptions (fontOption font) ++
          ("text=" ++ s) :: readOptions (":".intercalate (furtherOptions p)) ↔
        '\x27' ∉ s.toList)) ∧
    ∀ file input output : Path, ∃ filter : String,
      Arguments.addSubtitles file input output = Arguments.filtered input filter output ∧
      (readOptions filter = ["subtitles=" ++ file.text] ↔ '\x27' ∉ file.text.toList) := by
  have hdrawtext : ∀ c ∈ "drawtext=fontfile=".toList, Quoting.IsPlain c := by simp [Quoting.IsPlain]
  have htext : ∀ c ∈ "text=".toList, Quoting.IsPlain c ∧ c ≠ ':' := by simp [Quoting.IsPlain]
  have hsubtitles : ∀ c ∈ "subtitles=".toList, Quoting.IsPlain c ∧ c ≠ ':' := by
    simp [Quoting.IsPlain]
  refine ⟨fun s os => readOptions_quoted_iff htext s os, ?_, ?_⟩
  · intro p font s hfont
    have hfront : readOptions (drawText { p with text := s } font) =
        readOptions (fontOption font) ++
          readOptions (":".intercalate (("text='" ++ escape s ++ "'") :: furtherOptions p)) := by
      rw [drawText_eq]
      exact readOptions_unescaped hdrawtext hfont _ _
    rw [hfront, List.append_right_inj]
    exact readOptions_quoted_iff htext s (furtherOptions p)
  · intro file input output
    refine ⟨"subtitles='" ++ escape file.text ++ "'", rfl, ?_⟩
    have hiff := readOptions_quoted_iff hsubtitles file.text []
    rwa [String.intercalate_singleton] at hiff

/-- A text overlay in white letters at the bottom. -/
def caption (s : String) : TextOverlay Float :=
  ⟨s, "bottom_center", 48, "white", none, none, false, none, none, 0, 50, none, none⟩

/-- Colons, backslashes and double quotes do no harm to the caption. -/
theorem escaped_read_caption :
    (∀ c ∈ "/f.ttf".toList, Quoting.IsPlain c) ∧ '\x27' ∉ "12:30 \\ \"noon\":".toList ∧
      readOptions (drawText (caption "12:30 \\ \"noon\":") ⟨"/f.ttf"⟩) =
        readOptions (fontOption ⟨"/f.ttf"⟩) ++ "text=12:30 \\ \"noon\":" ::
          readOptions (":".intercalate (furtherOptions (caption ""))) := by
  have hfont : ∀ c ∈ "/f.ttf".toList, Quoting.IsPlain c := by simp [Quoting.IsPlain]
  have hquote : '\x27' ∉ "12:30 \\ \"noon\":".toList := by decide
  exact ⟨hfont, hquote, (escaped_read_iff.2.1 (caption "") ⟨"/f.ttf"⟩ _ hfont).mpr hquote⟩

/-- With an apostrophe the caption loses it, and ends at the colon, whose escape is used up outside
of quotes. -/
theorem readOptions_apostrophe :
    readOptions (drawText (caption "it's 5:30") ⟨"/f.ttf"⟩) =
        ["drawtext=fontfile=/f.ttf", "text=its 5", "30", "fontsize=48", "fontcolor=white",
          "x=(w-text_w)/2", "y=h-th-50"] ∧
      "text=it's 5:30" ∉ readOptions (drawText (caption "it's 5:30") ⟨"/f.ttf"⟩) := by
  decide +kernel

end Montage.Filter
