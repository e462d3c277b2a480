import Montage.Media.Subtitles
import Montage.Proofs.Decimal.Padded
import Montage.Proofs.Task.Params
import Montage.Proofs.Text.Lines

/-!
# Subtitle files that are read back

A subtitle file is read as blocks of lines with blank lines between them: a number, a line of times
and the lines of a text. Each cue with a text is written as one block with its own number, times and
text. The text itself is written as it is, so the file is read as these blocks if and only if no
line of a text is blank.
-/

namespace Montage
open TimeScale

/-- A subtitle as it stands in a file. -/
structure SubtitleBlock where
  number : Nat
  start : String
  stop : String
  text : String
  deriving DecidableEq, Repr

namespace SubtitleBlock

/-- The stamps of a line of times. -/
def times? (line : List Char) : Option (String × String) :=
  match Text.words (String.ofList line) with
  | [start, arrow, stop] => if arrow = "-->" then some (start, stop) else none
  | _ => none

def ofLines? : List (List Char) → Option SubtitleBlock
  | number :: times :: line :: lines => do
    let n ← Decimal.natural? number
    let (start, stop) ← times? times
    return ⟨n, start, stop, String.ofList (['\n'].intercalate (line :: lines))⟩
  | _ => none

/-- The blocks of a subtitle file, unless something in it is no block. Readers may differ in which
lines are blank to them. -/
def readAll? (blank : List Char → Bool) (text : String) : Option (List SubtitleBlock) :=
  (Text.Chars.paragraphs blank (Text.Chars.lines text.toList)).mapM ofLines?

theorem times?_words {start stop : String} (hstart : Text.IsWord start) (hstop : Text.IsWord stop) :
    times? (start ++ " --> " ++ stop).toList = some (start, stop) := by
  have harrow : Text.IsWord "-->" := ⟨by decide, List.forall_iff_forall_mem.mp (by decide)⟩
  have hwords : Text.words (start ++ " --> " ++ stop) = [start, "-->", stop] := by
    have hspaced : start ++ " --> " ++ stop = " ".intercalate [start, "-->", stop] := by
      apply String.toList_inj.mp
      simp [String.intercalate_cons_cons]
    rw [hspaced]
    exact Text.words_intercalate (by simp [hstart, hstop, harrow])
  rw [times?, String.ofList_toList, hwords]
  exact if_pos rfl

/-- The lines of a text that was read stand in the file. -/
theorem lines_subset_of_ofLines? {g : List (List Char)} {b : SubtitleBlock}
    (h : ofLines? g = some b) (hg : ∀ l ∈ g, '\n' ∉ l) :
    ∀ l ∈ Text.Chars.lines b.text.toList, l ∈ g := by
  match g with
  | [] => simp [ofLines?] at h
  | [_] => simp [ofLines?] at h
  | [_, _] => simp [ofLines?] at h
  | number :: times :: line :: lines =>
    have hlines : ∀ l ∈ line :: lines, l ∈ number :: times :: line :: lines :=
      fun l hl => List.mem_cons_of_mem _ (List.mem_cons_of_mem _ hl)
    simp only [ofLines?, Option.bind_eq_bind, Option.bind_eq_some_iff] at h
    obtain ⟨n, -, ⟨start, stop⟩, -, h⟩ := h
    have htext : b.text = String.ofList (['\n'].intercalate (line :: lines)) := by
      rw [← Option.some.inj h]
    rw [htext, String.toList_ofList, Text.Chars.lines_intercalate (fun l hl => hg l (hlines l hl))
      (List.cons_ne_nil line lines)]
    exact hlines

end SubtitleBlock

namespace SubtitleCue
variable {T : Type} [TimeScale T]

/-- The block that a cue is to be read as. -/
def shownAs (c : SubtitleCue T) (n : Nat) : SubtitleBlock :=
  ⟨n, stamp c.start, stamp c.stopOrDefault, Text.trim c.text⟩

/-- The cues with a text, each with its number. -/
def shown (cs : List (SubtitleCue T)) : List (SubtitleCue T × Nat) :=
  (cs.zipIdx 1).filter fun m => Text.trim m.1.text ≠ ""

/-- The lines of the block of a cue. -/
def blockLines (c : SubtitleCue T) (n : Nat) : List (List Char) :=
  (toString n).toList :: (stamp c.start ++ " --> " ++ stamp c.stopOrDefault).toList ::
    Text.Chars.lines (Text.trim c.text).toList

theorem isWord_stamp (t : T) : Text.IsWord (stamp t) := by
  have hdigits (width n : Nat) : ∀ c ∈ (padded width n).toList, Text.isBlank c = false :=
    fun c hc => Text.isBlank_of_isDigit (mem_padded hc)
  have hcolon : ∀ c ∈ ":".toList, Text.isBlank c = false :=
    List.forall_iff_forall_mem.mp (by decide)
  have hcomma : ∀ c ∈ ",".toList, Text.isBlank c = false :=
    List.forall_iff_forall_mem.mp (by decide)
  constructor
  · simp [stamp]
  · simp only [stamp, String.toList_append, List.forall_mem_append]
    exact ⟨⟨⟨⟨⟨⟨hdigits _ _, hcolon⟩, hdigits _ _⟩, hcolon⟩, hdigits _ _⟩, hcomma⟩, hdigits _ _⟩

theorem ofLines?_blockLines (c : SubtitleCue T) (n : Nat) :
    SubtitleBlock.ofLines? (c.blockLines n) = some (c.shownAs n) := by
  have hne : Text.Chars.lines (Text.trim c.text).toList ≠ [] := List.splitOnP_ne_nil _ _
  obtain ⟨l, ls, hlines⟩ := List.exists_cons_of_ne_nil hne
  have htext : ['\n'].intercalate (l :: ls) = (Text.trim c.text).toList := by
    rw [← hlines, Text.Chars.lines, List.intercalate_splitOn]
  rw [blockLines, hlines, SubtitleBlock.ofLines?, Decimal.natural?_toString,
    SubtitleBlock.times?_words (isWord_stamp _) (isWord_stamp _), htext, String.ofList_toList]
  rfl

theorem toList_block (c : SubtitleCue T) (n : Nat) :
    (c.block n).toList = Text.Chars.ended (c.blockLines n) := by
  have hcons (l : List Char) (ls : List (List Char)) :
      Text.Chars.ended (l :: ls) = l ++ ['\n'] ++ Text.Chars.ended ls := List.flatMap_cons
  rw [blockLines, hcons, hcons, Text.Chars.ended_lines]
  simp [block]

theorem blocksFrom_eq (n : Nat) (cs : List (SubtitleCue T)) :
    blocksFrom n cs = ((cs.zipIdx n).filter fun m => Text.trim m.1.text ≠ "").map
      fun m => m.1.block m.2 := by
  induction cs generalizing n with
  | nil => rfl
  | cons c cs ih =>
    rw [blocksFrom, List.zipIdx_cons, List.filter_cons, ih]
    by_cases hblank : Text.isBlankText c.text = true
    · simp [hblank, (Text.trim_eq_empty_iff c.text).mpr hblank]
    · simp [hblank, mt (Text.trim_eq_empty_iff c.text).mp hblank]

theorem toList_fileText (cs : List (SubtitleCue T)) :
    (fileText cs).toList = Text.Chars.spaced ((shown cs).map fun m => m.1.blockLines m.2) := by
  rw [fileText, blocksFrom_eq, String.toList_intercalate, Text.Chars.spaced, List.map_map,
    List.map_map]
  exact congrArg _ (List.map_congr_left fun m _ => toList_block m.1 m.2)

theorem lineFeed_not_mem_blockLines (c : SubtitleCue T) (n : Nat) :
    ∀ l ∈ c.blockLines n, '\n' ∉ l := by
  have hfeed : Text.isBlank '\n' = true := by decide
  have hnumber := (Text.isWord_natText n).not_mem hfeed
  have hstart := (isWord_stamp c.start).not_mem hfeed
  have hstop := (isWord_stamp c.stopOrDefault).not_mem hfeed
  rw [blockLines, List.forall_mem_cons, List.forall_mem_cons]
  refine ⟨hnumber, ?_, fun l hl => Text.Chars.lineFeed_not_mem hl⟩
  simp [hstart, hstop]

section
variable {blank : List Char → Bool} (hempty : blank [] = true)
  (hblank : ∀ l, blank l = true → ∀ c ∈ l, Text.isBlank c = true)
include hblank

/-- A line with a character that is not blank. -/
theorem not_blank_of_mem {l : List Char} {c : Char} (hc : c ∈ l) (hsolid : Text.isBlank c = false) :
    blank l = false := by
  rw [Bool.eq_false_iff]
  intro hl
  rw [hblank l hl c hc] at hsolid
  exact absurd hsolid.symm Bool.false_ne_true

/-- The first two lines of a block are never blank. -/
theorem not_blank_of_mem_blockLines {c : SubtitleCue T}
    (h : ∀ l ∈ Text.Chars.lines (Text.trim c.text).toList, blank l = false) (n : Nat) :
    ∀ l ∈ c.blockLines n, blank l = false := by
  rw [blockLines, List.forall_mem_cons, List.forall_mem_cons]
  obtain ⟨d, hd⟩ := List.exists_mem_of_ne_nil _ (Text.natText_ne_nil n)
  refine ⟨not_blank_of_mem hblank hd (Text.isBlank_of_mem_natText hd), ?_, h⟩
  have hsolid : Text.isBlank '>' = false := by decide
  have harrow : '>' ∈ (stamp c.start ++ " --> " ++ stamp c.stopOrDefault).toList := by
    rw [String.toList_append, String.toList_append]
    exact List.mem_append_left _ (List.mem_append_right _ (by decide))
  exact not_blank_of_mem hblank harrow hsolid

include hempty

/-- The file is read as the cues that have a text, in their order and with their numbers, times and
texts, if and only if no line of these texts is blank. -/
theorem readAll?_fileText_iff (cs : List (SubtitleCue T)) :
    SubtitleBlock.readAll? blank (fileText cs) = some ((shown cs).map fun m => m.1.shownAs m.2) ↔
      ∀ m ∈ shown cs, ∀ l ∈ Text.Chars.lines (Text.trim m.1.text).toList, blank l = false := by
  rw [SubtitleBlock.readAll?, toList_fileText, mapM_eq_some_iff]
  constructor
  · intro h m hm l hl
    have hread : some (m.1.shownAs m.2) ∈ ((shown cs).map fun m => m.1.shownAs m.2).map some :=
      List.mem_map_of_mem (List.mem_map_of_mem hm)
    rw [← h] at hread
    obtain ⟨g, hg, hblock⟩ := List.mem_map.mp hread
    have hlines := Text.Chars.mem_paragraphs hg
    have hmem := SubtitleBlock.lines_subset_of_ofLines? hblock
      (fun k hk => Text.Chars.lineFeed_not_mem (hlines k hk).1) l hl
    exact (hlines l hmem).2
  · intro h
    rw [Text.Chars.paragraphs_spaced hempty, List.map_map, List.map_map]
    · apply List.map_congr_left
      intro m _
      rw [Function.comp_apply, Function.comp_apply, ofLines?_blockLines]
    · rw [List.forall_mem_map]
      intro m hm
      have hne : m.1.blockLines m.2 ≠ [] := by simp [blockLines]
      exact ⟨hne, fun l hl => ⟨lineFeed_not_mem_blockLines m.1 m.2 l hl,
        not_blank_of_mem_blockLines hblank (h m hm) m.2 l hl⟩⟩

end

/-- A cue of blanks leaves a hole in the numbers. -/
theorem readAll?_fileText_greeting :
    let blank : List Char → Bool := fun l => l.all Text.isBlank
    let cues : List (SubtitleCue Rat) :=
      [⟨0, some (3 / 2), " Hello\nthere "⟩, ⟨2, none, "  "⟩, ⟨3661, some 3666, "Bye"⟩]
    blank [] = true ∧ (∀ l, blank l = true → ∀ c ∈ l, Text.isBlank c = true) ∧
      SubtitleBlock.readAll? blank (fileText cues) =
        some [⟨1, "00:00:00,000", "00:00:01,500", "Hello\nthere"⟩,
          ⟨3, "01:01:01,000", "01:01:06,000", "Bye"⟩] := by
  intro blank cues
  have hblank : ∀ l, blank l = true → ∀ c ∈ l, Text.isBlank c = true :=
    fun l hl => List.all_eq_true.mp hl
  have hlines : ∀ m ∈ shown cues,
      ∀ l ∈ Text.Chars.lines (Text.trim m.1.text).toList, blank l = false := by decide +kernel
  exact ⟨rfl, hblank, ((readAll?_fileText_iff rfl hblank cues).mpr hlines).trans
    (by decide +kernel)⟩

/-- An empty line in a text ends the block of its cue, and what follows may be no block or one that
is no cue. -/
theorem readAll?_empty_line :
    let torn : List (SubtitleCue Rat) := [⟨0, some (3 / 2), "Hello\n\nworld"⟩]
    let forged : List (SubtitleCue Rat) :=
      [⟨0, some (3 / 2), "Hello\n\n7\n00:00:02,000 --> 00:00:03,000\nworld"⟩]
    SubtitleBlock.readAll? List.isEmpty (fileText torn) ≠
        some ((shown torn).map fun m => m.1.shownAs m.2) ∧
      SubtitleBlock.readAll? List.isEmpty (fileText torn) = none ∧
      SubtitleBlock.readAll? List.isEmpty (fileText forged) =
        some [⟨1, "00:00:00,000", "00:00:01,500", "Hello"⟩,
          ⟨7, "00:00:02,000", "00:00:03,000", "world"⟩] := by
  decide +kernel

end SubtitleCue

end Montage
