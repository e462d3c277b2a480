import Montage.Json.Printer
import Montage.Json.Reader
import Montage.Proofs.Json.Ordered

/-!
# Reading what is printed

The indented text of a value is read as that value, with the members of its objects in the order of
their keys. It takes numbers whose texts are read as the same numbers, and no more nesting than
reading allows; strings may hold any characters.

The text is followed the way it is read: first its tokens, then the tree that they build, then the
value of the tree.
-/

namespace Montage

/-! ## Strings -/

namespace Units

theorem hexValue?_control : ∀ n < 0x20,
    ((if n < 0x10 then ['0'] else []) ++ Text.hex n).length = 2 ∧
      Text.hexValue? (['0', '0'] ++ ((if n < 0x10 then ['0'] else []) ++ Text.hex n)) = some n := by
  decide

/-- How a character stands in a string: behind a backslash, as a number, or as it is. -/
theorem escape_cases (c : Char) :
    (∃ e, Json.escape c = ['\\', e] ∧ e ≠ 'u' ∧ ofEscape? e = some c.toNat) ∨
      (∃ a b, Json.escape c = ['\\', 'u', '0', '0', a, b] ∧
        Text.hexValue? ['0', '0', a, b] = some c.toNat) ∨
      (Json.escape c = [c] ∧ c ≠ '"' ∧ c ≠ '\\' ∧ ¬ c.toNat < 0x20) := by
  by_cases hshort : c = '"' ∨ c = '\\' ∨ c = '\n' ∨ c = '\r' ∨ c = '\t' ∨ c = '\x08' ∨ c = '\x0c'
  · left
    obtain rfl | rfl | rfl | rfl | rfl | rfl | rfl := hshort
    all_goals exact ⟨_, rfl, by decide, by decide⟩
  · simp only [not_or] at hshort
    obtain ⟨hquote, hslash, hn, hr, ht, hb, hf⟩ := hshort
    by_cases hcontrol : c.toNat < 0x20
    · obtain ⟨hlength, hvalue⟩ := hexValue?_control c.toNat hcontrol
      obtain ⟨a, b, hab⟩ := List.length_eq_two.mp hlength
      rw [hab] at hvalue
      have hescape : Json.escape c = ['\\', 'u', '0', '0'] ++
          ((if c.toNat < 0x10 then ['0'] else []) ++ Text.hex c.toNat) := by
        simp [Json.escape, hquote, hslash, hn, hr, ht, hb, hf, hcontrol]
      rw [hab] at hescape
      exact Or.inr (Or.inl ⟨a, b, hescape, hvalue⟩)
    · refine Or.inr (Or.inr ⟨?_, hquote, hslash, hcontrol⟩)
      simp [Json.escape, hquote, hslash, hn, hr, ht, hb, hf, hcontrol]

theorem read?_escape (c : Char) (s : List Char) :
    read? (Json.escape c ++ s) = (read? s).map (c.toNat :: ·) := by
  obtain ⟨e, hescape, hu, he⟩ | ⟨a, b, hescape, hhex⟩ | ⟨hescape, -, hslash, hcontrol⟩ :=
    escape_cases c
  · rw [hescape, List.cons_append, List.cons_append, List.nil_append, read?, he]
    · cases read? s <;> rfl
    · intro _ _ _ _ _ heq
      exact absurd heq hu
  · simp only [hescape, List.cons_append, List.nil_append, read?, hhex]
    cases read? s <;> rfl
  · simp [hescape, read?, hslash, hcontrol]

theorem read?_flatMap_escape (cs : List Char) :
    read? (cs.flatMap Json.escape) = some (cs.map Char.toNat) := by
  induction cs with
  | nil => rfl
  | cons c cs ih => rw [List.flatMap_cons, read?_escape, ih, Option.map_some, List.map_cons]

theorem not_surrogate (c : Char) : isHigh c.toNat = false ∧ isLow c.toNat = false := by
  have hvalid : c.toNat < 0xd800 ∨ 0xdfff < c.toNat := c.valid.imp id And.left
  simp only [isHigh, isLow, Bool.and_eq_false_iff, decide_eq_false_iff_not]
  omega

theorem chars?_map_toNat (cs : List Char) : chars? (cs.map Char.toNat) = some cs := by
  induction cs with
  | nil => rfl
  | cons c cs ih =>
    obtain ⟨hhigh, hlow⟩ := not_surrogate c
    cases cs with
    | nil => simp [chars?, hhigh, hlow]
    | cons d cs =>
      rw [List.map_cons, List.map_cons, chars?, ← List.map_cons, ih]
      simp [hhigh, hlow]

theorem text?_map_toNat (s : String) : text? (s.toList.map Char.toNat) = some s := by
  rw [text?, chars?_map_toNat, Option.map_some, String.ofList_toList]

end Units

/-! ## Tokens -/

namespace Token

theorem scan_escape (c : Char) (seen s : List Char) :
    scan (.text seen) (Json.escape c ++ s) = scan (.text ((Json.escape c).reverse ++ seen)) s := by
  obtain ⟨e, hescape, -, -⟩ | ⟨a, b, hescape, hhex⟩ | ⟨hescape, hquote, hslash, -⟩ :=
    Units.escape_cases c
  · simp [hescape, scan]
  · -- Neither a quote nor a backslash is a hexadecimal digit.
    have ha : a ≠ '"' ∧ a ≠ '\\' := by
      constructor <;> rintro rfl <;> simp [Text.hexValue?, Text.hexDigit?] at hhex
    have hb : b ≠ '"' ∧ b ≠ '\\' := by
      constructor <;> rintro rfl <;> simp [Text.hexValue?, Text.hexDigit?] at hhex
    simp [hescape, scan, ha, hb]
  · simp [hescape, scan, hquote, hslash]

theorem scan_flatMap_escape (cs seen s : List Char) :
    scan (.text seen) (cs.flatMap Json.escape ++ s) =
      scan (.text ((cs.flatMap Json.escape).reverse ++ seen)) s := by
  induction cs generalizing seen with
  | nil => rfl
  | cons c cs ih =>
    rw [List.flatMap_cons, List.append_assoc, scan_escape, ih, List.reverse_append,
      List.append_assoc]

theorem scan_quote (s : String) (rest : List Char) :
    scan .between ((Json.quote s).toList ++ rest) =
      (scan .between rest).map (.text (s.toList.map Char.toNat) :: ·) := by
  have htext : (Json.quote s).toList ++ rest =
      '"' :: (s.toList.flatMap Json.escape ++ '"' :: rest) := by
    simp [Json.quote]
  have hopen (cs : List Char) : scan .between ('"' :: cs) = scan (.text []) cs := by
    simp [scan, isBlank]
  rw [htext, hopen, scan_flatMap_escape, List.append_nil, scan, if_pos rfl, List.reverse_reverse,
    Units.read?_flatMap_escape]
  cases scan .between rest <;> rfl

/-- A character of a word. -/
def IsPlain (c : Char) : Prop := isBlank c = false ∧ c ≠ '"' ∧ (punctuation? c).isNone

instance (c : Char) : Decidable (IsPlain c) := inferInstanceAs (Decidable (_ ∧ _ ∧ _))

/-- What a word cannot go on with. -/
def Delimits (rest : List Char) : Prop := ∀ c ∈ rest.head?, ¬ IsPlain c

theorem scan_word_delimits (seen : List Char) {rest : List Char} (h : Delimits rest) :
    scan (.word seen) rest = (scan .between rest).map (.word seen.reverse :: ·) := by
  cases rest with
  | nil => rfl
  | cons c s =>
    have hc : ¬ IsPlain c := h c rfl
    rw [scan, scan]
    split_ifs with hblank hquote
    · rfl
    · rfl
    · cases hpunctuation : punctuation? c with
      | some t => cases scan .between s <;> rfl
      | none => exact absurd ⟨by simpa using hblank, hquote, by simp [hpunctuation]⟩ hc

theorem scan_word_append {w : List Char} (hw : ∀ c ∈ w, IsPlain c) (seen : List Char)
    {rest : List Char} (h : Delimits rest) : scan (.word seen) (w ++ rest) =
      (scan .between rest).map (.word (seen.reverse ++ w) :: ·) := by
  -- The characters seen so far are held in reverse.
  induction w generalizing seen with
  | nil => rw [List.nil_append, scan_word_delimits seen h, List.append_nil]
  | cons c w ih =>
    obtain ⟨⟨hblank, hquote, hpunctuation⟩, hw⟩ := List.forall_mem_cons.mp hw
    rw [List.cons_append, scan, if_neg (by simp [hblank]), if_neg hquote,
      Option.isNone_iff_eq_none.mp hpunctuation]
    simp only [ih hw, List.reverse_cons, List.append_assoc, List.singleton_append]

theorem scan_word {w : List Char} (hne : w ≠ []) (hw : ∀ c ∈ w, IsPlain c) {rest : List Char}
    (h : Delimits rest) :
    scan .between (w ++ rest) = (scan .between rest).map (.word w :: ·) := by
  cases w with
  | nil => exact absurd rfl hne
  | cons c w =>
    obtain ⟨⟨hblank, hquote, hpunctuation⟩, hw⟩ := List.forall_mem_cons.mp hw
    rw [List.cons_append, scan, if_neg (by simp [hblank]), if_neg hquote,
      Option.isNone_iff_eq_none.mp hpunctuation]
    exact scan_word_append hw [c] h

theorem scan_blank {c : Char} (h : isBlank c = true) (s : List Char) :
    scan .between (c :: s) = scan .between s := by
  rw [scan, if_pos h]

theorem scan_blanks (depth : Nat) (s : List Char) :
    scan .between ((Json.blanks depth).toList ++ s) = scan .between s := by
  rw [Json.blanks, String.toList_ofList]
  induction 2 * depth with
  | zero => rfl
  | succ n ih => rw [List.replicate_succ, List.cons_append, scan_blank rfl, ih]

theorem scan_mark {c : Char} {t : Token} (hblank : isBlank c = false) (hquote : c ≠ '"')
    (h : punctuation? c = some t) (s : List Char) :
    scan .between (c :: s) = (scan .between s).map (t :: ·) := by
  rw [scan, if_neg (by simp [hblank]), if_neg hquote, h]

theorem delimits_of_blank {c : Char} (h : isBlank c = true) (s : List Char) :
    Delimits (c :: s) := by
  intro d hd hplain
  obtain rfl := Option.some.inj hd
  exact Bool.false_ne_true (hplain.1.symm.trans h)

theorem delimits_of_mark {c : Char} {t : Token} (h : punctuation? c = some t) (s : List Char) :
    Delimits (c :: s) := by
  intro d hd hplain
  obtain rfl := Option.some.inj hd
  have hnone := hplain.2.2
  rw [h] at hnone
  cases hnone

end Token

/-! ## Numbers and nesting -/

deriving instance DecidableEq for Number

/-- A number whose text is read as the same number. -/
structure Number.Legible {T : Type} [TimeScale T] [Spelled T] (n : Number T) : Prop where
  plain : ∀ c ∈ n.text.toList, Token.IsPlain c
  read : (Literal.read? n.text.toList).bind Literal.value? = some n

namespace Number
variable {T : Type} [TimeScale T] [Spelled T]

instance [DecidableEq T] (n : Number T) : Decidable n.Legible :=
  decidable_of_iff (n.text.toList.all (fun c => decide (Token.IsPlain c)) = true ∧
      (Literal.read? n.text.toList).bind Literal.value? = some n)
    ⟨fun h => ⟨by simpa using h.1, h.2⟩, fun h => ⟨by simpa using h.plain, h.read⟩⟩

/-- The word that a number is written as. -/
theorem Legible.exists_word {n : Number T} (h : n.Legible) : n.text.toList ≠ [] ∧
    ∃ l : Literal, Node.ofWord? n.text.toList = some (.number l) ∧ l.value? = some n := by
  obtain ⟨l, hl, hvalue⟩ := Option.bind_eq_some_iff.mp h.read
  have hword {w : List Char} (hw : Literal.read? w = none) : n.text.toList ≠ w := by
    rintro rfl
    exact Option.some_ne_none l (hl.symm.trans hw)
  refine ⟨hword rfl, l, ?_, hvalue⟩
  rw [Node.ofWord?, if_neg (hword rfl), if_neg (hword rfl), if_neg (hword rfl), hl, Option.map_some]

end Number

namespace Json
variable {T : Type}

mutual

/-- The numbers that a value holds. -/
def numbers : Json T → List (Number T)
  | .number n => [n]
  | .list items => itemNumbers items
  | .object ms => memberNumbers ms
  | _ => []

def itemNumbers : List (Json T) → List (Number T)
  | [] => []
  | j :: js => j.numbers ++ itemNumbers js

def memberNumbers : List (String × Json T) → List (Number T)
  | [] => []
  | (_, j) :: ms => j.numbers ++ memberNumbers ms

end

theorem itemNumbers_eq (items : List (Json T)) : itemNumbers items = items.flatMap numbers := by
  induction items with
  | nil => rfl
  | cons j js ih => rw [itemNumbers, ih, List.flatMap_cons]

theorem memberNumbers_eq (ms : Members T) :
    memberNumbers ms = ms.flatMap fun m => m.2.numbers := by
  induction ms with
  | nil => rfl
  | cons m ms ih => rw [memberNumbers, ih, List.flatMap_cons]

mutual

/-- How many lists and objects are nested in one another. -/
def depth : Json T → Nat
  | .list items => depthItems items + 1
  | .object ms => depthMembers ms + 1
  | _ => 0

def depthItems : List (Json T) → Nat
  | [] => 0
  | j :: js => max j.depth (depthItems js)

def depthMembers : List (String × Json T) → Nat
  | [] => 0
  | (_, j) :: ms => max j.depth (depthMembers ms)

end

/-! ## Printed tokens -/

variable [Spelled T]

mutual

/-- The tokens of a printed value. -/
def tokens : Json T → List Token
  | .null => [.word ['n', 'u', 'l', 'l']]
  | .bool true => [.word ['t', 'r', 'u', 'e']]
  | .bool false => [.word ['f', 'a', 'l', 's', 'e']]
  | .number n => [.word n.text.toList]
  | .text s => [.text (s.toList.map Char.toNat)]
  | .list items => .listStart :: (itemTokens items ++ [.listEnd])
  | .object ms => .objectStart :: (memberTokens ms ++ [.objectEnd])

def itemTokens : List (Json T) → List Token
  | [] => []
  | [j] => j.tokens
  | j :: k :: js => j.tokens ++ .comma :: itemTokens (k :: js)

def memberTokens : List (String × Json T) → List Token
  | [] => []
  | [(k, j)] => .text (k.toList.map Char.toNat) :: .colon :: j.tokens
  | (k, j) :: m :: ms =>
    .text (k.toList.map Char.toNat) :: .colon :: (j.tokens ++ .comma :: memberTokens (m :: ms))

end

/-- What follows a printed value is scanned behind the tokens of the value. -/
def ScansIndented (j : Json T) : Prop :=
  ∀ (depth : Nat) (rest : List Char), Token.Delimits rest →
    Token.scan .between ((j.indented depth).toList ++ rest) =
      (Token.scan .between rest).map (j.tokens ++ ·)

open Token in
theorem scan_indentedItems {items : List (Json T)} (h : ∀ j ∈ items, j.ScansIndented) (depth : Nat)
    {rest : List Char} (hrest : Delimits rest) :
    scan .between ((indentedItems depth items).toList ++ rest) =
      (scan .between rest).map (itemTokens items ++ ·) := by
  induction items with
  | nil => simp [indentedItems, itemTokens]
  | cons j js ih =>
    obtain ⟨hj, hjs⟩ := List.forall_mem_cons.mp h
    cases js with
    | nil =>
      rw [indentedItems, String.toList_append, List.append_assoc, scan_blanks, hj depth rest hrest]
      rfl
    | cons k js =>
      have htext : (indentedItems depth (j :: k :: js)).toList ++ rest =
          (blanks depth).toList ++ ((j.indented depth).toList ++
            (',' :: '\n' :: ((indentedItems depth (k :: js)).toList ++ rest))) := by
        simp [indentedItems, String.toList_append]
      rw [htext, scan_blanks, hj depth _ (delimits_of_mark rfl _), scan_mark rfl (by decide) rfl,
        scan_blank rfl, ih hjs]
      simp [itemTokens, Option.map_map, Function.comp_def]

open Token in
theorem scan_indentedMembers {ms : Members T} (h : ∀ m ∈ ms, m.2.ScansIndented) (depth : Nat)
    {rest : List Char} (hrest : Delimits rest) :
    scan .between ((indentedMembers depth ms).toList ++ rest) =
      (scan .between rest).map (memberTokens ms ++ ·) := by
  induction ms with
  | nil => simp [indentedMembers, memberTokens]
  | cons m ms ih =>
    obtain ⟨key, j⟩ := m
    obtain ⟨hj, hms⟩ := List.forall_mem_cons.mp h
    cases ms with
    | nil =>
      have htext : (indentedMembers depth [(key, j)]).toList ++ rest =
          (blanks depth).toList ++ ((quote key).toList ++
            (':' :: ' ' :: ((j.indented depth).toList ++ rest))) := by
        simp [indentedMembers, String.toList_append]
      rw [htext, scan_blanks, scan_quote, scan_mark rfl (by decide) rfl, scan_blank rfl,
        hj depth rest hrest]
      simp [memberTokens, Option.map_map, Function.comp_def]
    | cons m ms =>
      have htext : (indentedMembers depth ((key, j) :: m :: ms)).toList ++ rest =
          (blanks depth).toList ++ ((quote key).toList ++
            (':' :: ' ' :: ((j.indented depth).toList ++
              (',' :: '\n' :: ((indentedMembers depth (m :: ms)).toList ++ rest))))) := by
        simp [indentedMembers, String.toList_append]
      rw [htext, scan_blanks, scan_quote, scan_mark rfl (by decide) rfl, scan_blank rfl,
        hj depth _ (delimits_of_mark rfl _), scan_mark rfl (by decide) rfl, scan_blank rfl, ih hms]
      simp [memberTokens, Option.map_map, Function.comp_def]

theorem scansIndented_of_word {j : Json T} {w : List Char} (htokens : j.tokens = [.word w])
    (htext : ∀ depth, (j.indented depth).toList = w) (hne : w ≠ [])
    (hplain : ∀ c ∈ w, Token.IsPlain c) : j.ScansIndented := by
  intro depth rest hrest
  rw [htext, htokens, Token.scan_word hne hplain hrest]
  rfl

open Token in
theorem scansIndented_list {items : List (Json T)} (h : ∀ j ∈ items, j.ScansIndented) :
    (Json.list items).ScansIndented := by
  intro depth rest hrest
  cases items with
  | nil =>
    have htext : (indented depth (.list [] : Json T)).toList ++ rest = '[' :: ']' :: rest := by
      simp [indented]
    rw [htext, scan_mark rfl (by decide) rfl, scan_mark rfl (by decide) rfl]
    simp [tokens, itemTokens, Function.comp_def]
  | cons j js =>
    have htext : (indented depth (.list (j :: js))).toList ++ rest =
        '[' :: '\n' :: ((indentedItems (depth + 1) (j :: js)).toList ++
          ('\n' :: ((blanks depth).toList ++ ']' :: rest))) := by
      simp [indented, String.toList_append]
    rw [htext, scan_mark rfl (by decide) rfl, scan_blank rfl,
      scan_indentedItems h (depth + 1) (delimits_of_blank rfl _), scan_blank rfl, scan_blanks,
      scan_mark rfl (by decide) rfl]
    simp [tokens, Function.comp_def]

open Token in
theorem scansIndented_object {ms : Members T} (h : ∀ m ∈ ms, m.2.ScansIndented) :
    (Json.object ms).ScansIndented := by
  intro depth rest hrest
  cases ms with
  | nil =>
    have htext : (indented depth (.object [] : Json T)).toList ++ rest =
        '\x7b' :: '\x7d' :: rest := by
      simp [indented]
    rw [htext, scan_mark rfl (by decide) rfl, scan_mark rfl (by decide) rfl]
    simp [tokens, memberTokens, Function.comp_def]
  | cons m ms =>
    have htext : (indented depth (.object (m :: ms))).toList ++ rest =
        '\x7b' :: '\n' :: ((indentedMembers (depth + 1) (m :: ms)).toList ++
          ('\n' :: ((blanks depth).toList ++ '\x7d' :: rest))) := by
      simp [indented, String.toList_append]
    rw [htext, scan_mark rfl (by decide) rfl, scan_blank rfl,
      scan_indentedMembers h (depth + 1) (delimits_of_blank rfl _), scan_blank rfl, scan_blanks,
      scan_mark rfl (by decide) rfl]
    simp [tokens, Function.comp_def]

/-! ## Stages -/

theorem exists_tokens_eq_cons (j : Json T) : ∃ t ts, j.tokens = t :: ts ∧ t ≠ .listEnd := by
  cases j with
  | bool b => cases b <;> exact ⟨_, _, rfl, Token.noConfusion⟩
  | _ => exact ⟨_, _, rfl, Token.noConfusion⟩

/-- A list that has just begun goes on like one that holds nothing yet, unless it ends. -/
theorem steps_itemTokens (j : Json T) (js : List (Json T)) (frames : List Node.Frame) :
    (itemTokens (j :: js) ++ [Token.listEnd]).foldlM Node.Stage.step (.itemOrEnd frames) =
      (itemTokens (j :: js) ++ [Token.listEnd]).foldlM Node.Stage.step
        (.value (.list [] :: frames)) := by
  obtain ⟨t, ts, htokens, hend⟩ : ∃ t ts,
      itemTokens (j :: js) ++ [Token.listEnd] = t :: ts ∧ t ≠ .listEnd := by
    obtain ⟨t, ts, ht, hend⟩ := j.exists_tokens_eq_cons
    cases js with
    | nil => exact ⟨t, ts ++ [Token.listEnd], by rw [itemTokens, ht, List.cons_append], hend⟩
    | cons k js => exact ⟨t, _, by rw [itemTokens, ht, List.cons_append, List.cons_append], hend⟩
  rw [htokens, List.foldlM_cons, List.foldlM_cons]
  cases t with
  | listEnd => exact absurd rfl hend
  | _ => rfl

theorem steps_memberTokens (m : String × Json T) (ms : Members T) (frames : List Node.Frame) :
    (memberTokens (m :: ms) ++ [Token.objectEnd]).foldlM Node.Stage.step (.keyOrEnd frames) =
      (memberTokens (m :: ms) ++ [Token.objectEnd]).foldlM Node.Stage.step (.key frames []) := by
  cases ms <;> rfl

/-! ## Trees -/

variable [TimeScale T]

/-- Every number of the value is read from its text. -/
def Legible (j : Json T) : Prop := ∀ n ∈ j.numbers, n.Legible

instance [DecidableEq T] (j : Json T) : Decidable j.Legible :=
  inferInstanceAs (Decidable (∀ n ∈ j.numbers, n.Legible))

theorem legible_list {items : List (Json T)} :
    (Json.list items).Legible ↔ ∀ j ∈ items, j.Legible := by
  rw [Legible, numbers, itemNumbers_eq, List.forall_mem_flatMap]
  rfl

theorem legible_object {ms : Members T} :
    (Json.object ms).Legible ↔ ∀ m ∈ ms, m.2.Legible := by
  rw [Legible, numbers, memberNumbers_eq, List.forall_mem_flatMap]
  rfl

/-- A printed value is cut into its tokens. -/
theorem Legible.scansIndented {j : Json T} (h : j.Legible) : j.ScansIndented := by
  induction j using Json.induction with
  | null =>
    exact scansIndented_of_word rfl (by simp [indented]) (List.cons_ne_nil _ _)
      (by simp [Token.IsPlain, Token.isBlank, Token.punctuation?])
  | bool b =>
    cases b
    all_goals
      exact scansIndented_of_word rfl (by simp [indented]) (List.cons_ne_nil _ _)
        (by simp [Token.IsPlain, Token.isBlank, Token.punctuation?])
  | number n =>
    have hn : n.Legible := h n List.mem_cons_self
    exact scansIndented_of_word rfl (fun _ => rfl) hn.exists_word.1 hn.plain
  | text s =>
    intro depth rest _
    exact Token.scan_quote s rest
  | list items ih =>
    exact scansIndented_list fun j hj => ih j hj (legible_list.mp h j hj)
  | object ms ih =>
    exact scansIndented_object fun m hm => ih m hm (legible_object.mp h m hm)

/-- The tree `n` is built of the tokens of the value, and it spells the value. -/
structure BuiltAs (j : Json T) (n : Node) : Prop where
  steps : ∀ frames, j.tokens.foldlM Node.Stage.step (.value frames) = some (.behind n frames)
  depth_eq : n.depth = j.depth
  value : n.shallow? = some j.ordered

/-- The same for the items of a list. -/
abbrev ItemsBuiltAs : List (Json T) → List Node → Prop := List.Forall₂ BuiltAs

/-- The same for the members of an object, whose keys are code units. -/
abbrev MembersBuiltAs : Members T → List (List Nat × Node) → Prop :=
  List.Forall₂ fun m n => n.1 = m.1.toList.map Char.toNat ∧ m.2.BuiltAs n.2

namespace ItemsBuiltAs
variable {items : List (Json T)} {ns : List Node}

theorem depth_eq (h : ItemsBuiltAs items ns) : Node.depthItems ns = depthItems items := by
  induction h with
  | nil => rfl
  | cons hn _ ih => rw [Node.depthItems, Json.depthItems, hn.depth_eq, ih]

theorem value (h : ItemsBuiltAs items ns) : Node.shallowItems? ns = some (orderedItems items) := by
  induction h with
  | nil => rfl
  | cons hn _ ih =>
    simp only [Node.shallowItems?, orderedItems, hn.value, ih]
    rfl

/-- The items behind `before`, which are held in reverse, up to the end of the list. -/
theorem steps (h : ItemsBuiltAs items ns) (hne : items ≠ []) (before : List Node)
    (frames : List Node.Frame) :
    (itemTokens items ++ [Token.listEnd]).foldlM Node.Stage.step (.value (.list before :: frames)) =
      some (.behind (.list (before.reverse ++ ns)) frames) := by
  induction h generalizing before with
  | nil => exact absurd rfl hne
  | @cons j n js ns hn hrest ih =>
    cases hrest with
    | nil =>
      rw [itemTokens, List.foldlM_append, hn.steps]
      simp [Node.Stage.step]
    | cons hk hrest =>
      rw [itemTokens, List.append_assoc, List.foldlM_append, hn.steps]
      have hih := ih (List.cons_ne_nil _ _) (n :: before)
      rw [List.reverse_cons, List.append_assoc, List.singleton_append] at hih
      exact hih

end ItemsBuiltAs

namespace MembersBuiltAs
variable {ms : Members T} {ns : List (List Nat × Node)}

theorem depth_eq (h : MembersBuiltAs ms ns) : Node.depthMembers ns = depthMembers ms := by
  induction h with
  | nil => rfl
  | cons hn _ ih => rw [Node.depthMembers, Json.depthMembers, hn.2.depth_eq, ih]

theorem value (h : MembersBuiltAs ms ns) :
    Node.shallowMembers? ns = some (orderedMembers ms) := by
  induction h with
  | nil => rfl
  | cons hn _ ih =>
    simp only [Node.shallowMembers?, orderedMembers, hn.1, Units.text?_map_toNat, hn.2.value, ih]
    rfl

/-- A member behind its key and the colon. -/
theorem step_key (key : List Nat) (before : List (List Nat × Node)) (frames : List Node.Frame)
    (ts : List Token) : (Token.text key :: Token.colon :: ts).foldlM Node.Stage.step
      (.key frames before) =
    ts.foldlM Node.Stage.step (.value (.object before key :: frames)) := rfl

/-- The members behind `before`, which are held in reverse, up to the end of the object. -/
theorem steps (h : MembersBuiltAs ms ns) (hne : ms ≠ []) (before : List (List Nat × Node))
    (frames : List Node.Frame) :
    (memberTokens ms ++ [Token.objectEnd]).foldlM Node.Stage.step (.key frames before) =
      some (.behind (.object (before.reverse ++ ns)) frames) := by
  induction h generalizing before with
  | nil => exact absurd rfl hne
  | @cons m n ms ns hn hrest ih =>
    obtain ⟨key, j⟩ := m
    obtain ⟨units, n⟩ := n
    obtain ⟨rfl, hn⟩ := hn
    cases hrest with
    | nil =>
      rw [memberTokens, List.cons_append, List.cons_append, step_key, List.foldlM_append, hn.steps]
      simp [Node.Stage.step]
    | cons hk hrest =>
      rw [memberTokens, List.cons_append, List.cons_append, step_key, List.append_assoc,
        List.foldlM_append, hn.steps]
      have hih := ih (List.cons_ne_nil _ _) ((key.toList.map Char.toNat, n) :: before)
      rw [List.reverse_cons, List.append_assoc, List.singleton_append] at hih
      exact hih

end MembersBuiltAs

theorem exists_forall₂ {α β : Type} {R : α → β → Prop} {as : List α} (h : ∀ a ∈ as, ∃ b, R a b) :
    ∃ bs, List.Forall₂ R as bs := by
  induction as with
  | nil => exact ⟨[], .nil⟩
  | cons a as ih =>
    obtain ⟨⟨b, hb⟩, has⟩ := List.forall_mem_cons.mp h
    obtain ⟨bs, hbs⟩ := ih has
    exact ⟨b :: bs, .cons hb hbs⟩

/-- The tokens of a printed value build a tree that spells the value. -/
theorem Legible.exists_builtAs {j : Json T} (h : j.Legible) : ∃ n, j.BuiltAs n := by
  induction j using Json.induction with
  | null => exact ⟨.null, fun _ => rfl, rfl, rfl⟩
  | bool b => cases b <;> exact ⟨.bool _, fun _ => rfl, rfl, rfl⟩
  | number n =>
    have hn : n.Legible := h n List.mem_cons_self
    obtain ⟨-, l, hl, hvalue⟩ := hn.exists_word
    refine ⟨.number l, fun frames => ?_, rfl, ?_⟩
    · simp [tokens, Node.Stage.step, Node.Stage.start, hl]
    · simp [Node.shallow?, hvalue, ordered]
  | text s =>
    refine ⟨.text (s.toList.map Char.toNat), fun _ => rfl, rfl, ?_⟩
    simp [Node.shallow?, Units.text?_map_toNat, ordered]
  | list items ih =>
    obtain ⟨ns, hns⟩ := exists_forall₂ fun j hj => ih j hj (legible_list.mp h j hj)
    refine ⟨.list ns, fun frames => ?_, ?_, ?_⟩
    · cases items with
      | nil =>
        cases hns
        rfl
      | cons j js =>
        exact (steps_itemTokens j js frames).trans
          (ItemsBuiltAs.steps hns (List.cons_ne_nil j js) [] frames)
    · rw [Node.depth, Json.depth, ItemsBuiltAs.depth_eq hns]
    · rw [Node.shallow?, ordered, ItemsBuiltAs.value hns, Option.map_some]
  | object ms ih =>
    have hbuilt : ∀ m ∈ ms, ∃ n : List Nat × Node,
        n.1 = m.1.toList.map Char.toNat ∧ m.2.BuiltAs n.2 := by
      intro m hm
      obtain ⟨n, hn⟩ := ih m hm (legible_object.mp h m hm)
      exact ⟨(_, n), rfl, hn⟩
    obtain ⟨ns, hns⟩ := exists_forall₂ hbuilt
    refine ⟨.object ns, fun frames => ?_, ?_, ?_⟩
    · cases ms with
      | nil =>
        cases hns
        rfl
      | cons m ms =>
        exact (steps_memberTokens m ms frames).trans
          (MembersBuiltAs.steps hns (List.cons_ne_nil m ms) [] frames)
    · rw [Node.depth, Json.depth, MembersBuiltAs.depth_eq hns]
    · rw [Node.shallow?, ordered, MembersBuiltAs.value hns, Option.map_some]

/-- A printed value is read as what its text spells. -/
theorem Legible.ofText_pretty {j : Json T} (h : j.Legible) (hdepth : j.depth ≤ Node.depthLimit) :
    Json.ofText (j.pretty ++ "\n") = .ok j.ordered := by
  obtain ⟨n, hn⟩ := h.exists_builtAs
  have hscan : Token.scan .between (j.pretty ++ "\n").toList = some j.tokens := by
    have htext : (j.pretty ++ "\n").toList = (j.indented 0).toList ++ ['\n'] := by
      simp [pretty, String.toList_append]
    rw [htext, h.scansIndented 0 _ (Token.delimits_of_blank rfl _), Token.scan_blank rfl]
    simp [Token.scan]
  have htree : Node.ofText? (j.pretty ++ "\n") = some n := by
    rw [Node.ofText?, hscan, Option.bind_some, Node.ofTokens?, hn.steps []]
  have hlimit : ¬ Node.depthLimit < n.depth := by
    rw [hn.depth_eq]
    exact Nat.not_lt.mpr hdepth
  rw [Json.ofText, htree]
  simp only [hlimit, ↓reduceIte, hn.value]

end Json

/-! ## Read values -/

namespace Node
variable {T : Type} [TimeScale T]

mutual

theorem ordered_of_shallow? {j : Json T} : ∀ n : Node, n.shallow? = some j → j.Ordered
  | .null, h => by
    obtain rfl := Option.some.inj h
    exact .null
  | .bool b, h => by
    obtain rfl := Option.some.inj h
    exact .bool b
  | .number n, h => by
    obtain ⟨x, -, rfl⟩ := Option.map_eq_some_iff.mp h
    exact .number x
  | .text units, h => by
    obtain ⟨s, -, rfl⟩ := Option.map_eq_some_iff.mp h
    exact .text s
  | .list ns, h => by
    obtain ⟨items, hitems, rfl⟩ := Option.map_eq_some_iff.mp h
    exact .list (ordered_of_shallowItems? ns hitems)
  | .object ns, h => by
    obtain ⟨ms, hms, rfl⟩ := Option.map_eq_some_iff.mp h
    exact .record (ordered_of_shallowMembers? ns hms)

theorem ordered_of_shallowItems? {items : List (Json T)} :
    ∀ ns : List Node, shallowItems? ns = some items → ∀ j ∈ items, j.Ordered
  | [], h => by
    obtain rfl := Option.some.inj h
    exact List.forall_mem_nil _
  | n :: ns, h => by
    simp only [shallowItems?, Option.bind_eq_bind, Option.bind_eq_some_iff] at h
    obtain ⟨j, hj, js, hjs, heq⟩ := h
    obtain rfl := Option.some.inj heq
    exact List.forall_mem_cons.mpr ⟨ordered_of_shallow? n hj, ordered_of_shallowItems? ns hjs⟩

theorem ordered_of_shallowMembers? {ms : Members T} :
    ∀ ns : List (List Nat × Node), shallowMembers? ns = some ms →
      Members.All (fun m => m.2.Ordered) ms
  | [], h => by
    obtain rfl := Option.some.inj h
    exact List.forall_mem_nil _
  | (k, n) :: ns, h => by
    simp only [shallowMembers?, Option.bind_eq_bind, Option.bind_eq_some_iff] at h
    obtain ⟨key, -, j, hj, rest, hrest, heq⟩ := h
    obtain rfl := Option.some.inj heq
    exact List.forall_mem_cons.mpr ⟨ordered_of_shallow? n hj, ordered_of_shallowMembers? ns hrest⟩

end

end Node

/-- What is read from a text has its members in the order of their keys. -/
theorem Json.ordered_of_ofText {T : Type} [TimeScale T] {s : String} {j : Json T}
    (h : Json.ofText s = .ok j) : j.Ordered := by
  unfold Json.ofText at h
  split at h
  · cases h
  · split_ifs at h
    split at h
    · cases h
    · next hj =>
      obtain rfl := Except.ok.inj h
      exact Node.ordered_of_shallow? _ hj

end Montage
