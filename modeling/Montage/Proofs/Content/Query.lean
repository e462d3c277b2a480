import Mathlib.Data.List.Sort
import Montage.Content.Query
import Montage.Proofs.Text.Words

/-!
# What is tried for a query

The query of a plan and its alternatives are tried first, each once and in the order in which they
come; then at most two shortened forms of the query, which are made of its long words. A word is
long by the bytes it takes. Beyond ASCII a word can take more than three bytes without having more
than three characters, and the main statement on shortened forms says for which queries, and for
which queries and alternatives, this makes a difference.
-/

namespace Montage.Query

/-! ## First occurrences -/

/-- Some texts, each once, in the order in which they first come. -/
structure FirstOccurrences (texts firsts : List String) : Prop where
  nodup : firsts.Nodup
  mem_iff (s : String) : s ∈ firsts ↔ s ∈ texts
  inOrder : firsts.Pairwise fun s t => texts.idxOf s < texts.idxOf t

theorem mem_distinct (seen texts : List String) (s : String) :
    s ∈ distinct seen texts ↔ s ∈ texts ∧ s ∉ seen := by
  induction texts generalizing seen with
  | nil => simp [distinct]
  | cons t texts ih =>
    simp only [distinct, List.contains_iff_mem]
    split_ifs with ht
    · rw [ih, List.mem_cons]
      exact ⟨fun h => ⟨Or.inr h.1, h.2⟩, fun h => ⟨h.1.resolve_left fun heq => h.2 (heq ▸ ht), h.2⟩⟩
    · rw [List.mem_cons, ih, List.mem_cons, List.mem_cons]
      by_cases hst : s = t
      · simp [hst, ht]
      · simp [hst]

theorem nodup_distinct (seen texts : List String) : (distinct seen texts).Nodup := by
  induction texts generalizing seen with
  | nil => exact .nil
  | cons t texts ih =>
    simp only [distinct]
    split_ifs
    · exact ih seen
    · exact List.nodup_cons.mpr ⟨by simp [mem_distinct], ih _⟩

/-- Behind a text that none of them is, the order of texts is the same. -/
theorem pairwise_idxOf_cons {texts firsts : List String} {t : String} (ht : t ∉ firsts)
    (h : firsts.Pairwise fun a b => texts.idxOf a < texts.idxOf b) :
    firsts.Pairwise fun a b => (t :: texts).idxOf a < (t :: texts).idxOf b := by
  refine h.imp_of_mem fun {a b} ha hb hab => ?_
  rw [List.idxOf_cons_ne _ (ne_of_mem_of_not_mem ha ht).symm,
    List.idxOf_cons_ne _ (ne_of_mem_of_not_mem hb ht).symm]
  exact Nat.succ_lt_succ hab

theorem inOrder_distinct (seen texts : List String) :
    (distinct seen texts).Pairwise fun a b => texts.idxOf a < texts.idxOf b := by
  induction texts generalizing seen with
  | nil => exact .nil
  | cons t texts ih =>
    simp only [distinct, List.contains_iff_mem]
    split_ifs with ht
    · exact pairwise_idxOf_cons (by simp [mem_distinct, ht]) (ih seen)
    · have hlater : t ∉ distinct (t :: seen) texts := by simp [mem_distinct]
      refine List.pairwise_cons.mpr ⟨fun b hb => ?_, pairwise_idxOf_cons hlater (ih _)⟩
      rw [List.idxOf_cons_self, List.idxOf_cons_ne _ (ne_of_mem_of_not_mem hb hlater).symm]
      exact Nat.succ_pos _

theorem firstOccurrences_distinct (texts : List String) :
    FirstOccurrences texts (distinct [] texts) where
  nodup := nodup_distinct [] texts
  mem_iff s := by simp [mem_distinct]
  inOrder := inOrder_distinct [] texts

theorem distinct_congr {seen seen' : List String} (h : ∀ s, s ∈ seen ↔ s ∈ seen')
    (texts : List String) : distinct seen texts = distinct seen' texts := by
  induction texts generalizing seen seen' with
  | nil => rfl
  | cons t texts ih =>
    simp only [distinct, List.contains_iff_mem, h t]
    split_ifs
    · exact ih h
    · refine congrArg (t :: ·) (ih fun s => ?_)
      rw [List.mem_cons, List.mem_cons, h s]

theorem distinct_append (seen texts more : List String) :
    distinct seen (texts ++ more) = distinct seen texts ++ distinct (texts ++ seen) more := by
  induction texts generalizing seen with
  | nil => rfl
  | cons t texts ih =>
    simp only [List.cons_append, distinct, List.contains_iff_mem]
    split_ifs with ht
    · have hsame (s : String) : s ∈ texts ++ seen ↔ s ∈ t :: (texts ++ seen) := by
        rw [List.mem_cons, List.mem_append]
        exact ⟨Or.inr, fun h => h.elim (fun heq => Or.inr (heq ▸ ht)) id⟩
      rw [ih, distinct_congr hsame]
    · have hsame (s : String) : s ∈ texts ++ t :: seen ↔ s ∈ t :: (texts ++ seen) := by
        simp only [List.mem_cons, List.mem_append]
        exact or_left_comm
      rw [ih, List.cons_append, distinct_congr hsame]

theorem distinct_of_nodup (seen : List String) {texts : List String} (h : texts.Nodup) :
    distinct seen texts = texts.filter (· ∉ seen) := by
  induction texts generalizing seen with
  | nil => rfl
  | cons t texts ih =>
    obtain ⟨ht, htexts⟩ := List.nodup_cons.mp h
    simp only [distinct, List.contains_iff_mem]
    split_ifs with hseen
    · rw [ih seen htexts, List.filter_cons_of_neg (by simpa using hseen)]
    · rw [ih _ htexts, List.filter_cons_of_pos (by simpa using hseen)]
      congr 1
      refine List.filter_congr fun s hs => ?_
      have hne : s ≠ t := fun heq => ht (heq ▸ hs)
      simp [hne]

/-! ## Shortened forms -/

/-- The shortened forms that the long words of a query make: the first two of three or more, with a
space between them, and the first of two or more. -/
def formsOf (words : List String) : List String :=
  (if 2 < words.length then [" ".intercalate (words.take 2)] else []) ++
    if 1 < words.length then words.take 1 else []

theorem formsOf_cons_cons_cons (a b c : String) (rest : List String) :
    formsOf (a :: b :: c :: rest) = [" ".intercalate [a, b], a] := by
  simp [formsOf]

section
variable {ws vs : List String}

theorem length_formsOf_le (ws : List String) : (formsOf ws).length ≤ 2 := by
  rcases ws with - | ⟨a, - | ⟨b, - | ⟨c, rest⟩⟩⟩ <;> simp [formsOf]

/-- A shortened form has words, and fewer than the long ones that it is made of. -/
theorem words_of_mem_formsOf (h : ∀ w ∈ ws, Text.IsWord w) {s : String} (hs : s ∈ formsOf ws) :
    Text.words s ≠ [] ∧ (Text.words s).length < ws.length := by
  rcases ws with - | ⟨a, - | ⟨b, - | ⟨c, rest⟩⟩⟩
  · exact absurd hs List.not_mem_nil
  · exact absurd hs List.not_mem_nil
  · obtain rfl := List.mem_singleton.mp hs
    rw [(h s List.mem_cons_self).words_eq]
    exact ⟨List.cons_ne_nil _ _, by simp⟩
  · rw [List.forall_mem_cons, List.forall_mem_cons] at h
    rw [formsOf_cons_cons_cons, List.mem_pair] at hs
    obtain rfl | rfl := hs
    · rw [Text.words_intercalate (by simp [h.1, h.2.1])]
      exact ⟨List.cons_ne_nil _ _, by simp⟩
    · rw [h.1.words_eq]
      exact ⟨List.cons_ne_nil _ _, by simp⟩

/-- The form with more words comes first. -/
theorem pairwise_formsOf (h : ∀ w ∈ ws, Text.IsWord w) :
    (formsOf ws).Pairwise fun s t => (Text.words t).length < (Text.words s).length := by
  rcases ws with - | ⟨a, - | ⟨b, - | ⟨c, rest⟩⟩⟩
  · exact .nil
  · exact .nil
  · exact List.pairwise_singleton _ _
  · rw [List.forall_mem_cons, List.forall_mem_cons] at h
    rw [formsOf_cons_cons_cons, List.pairwise_pair, h.1.words_eq,
      Text.words_intercalate (by simp [h.1, h.2.1])]
    simp

theorem formsOf_of_length_le (h : ws.length ≤ 1) : formsOf ws = [] := by
  have hpair : ¬ 2 < ws.length := by omega
  simp [formsOf, hpair, Nat.not_lt.mpr h]

/-- Of some words and a part of them, the same forms are made if there is at most one, or if the
first two are the same and both have a third, or neither. -/
theorem formsOf_eq_iff (hws : ∀ w ∈ ws, Text.IsWord w) (hpart : vs.Sublist ws) :
    formsOf ws = formsOf vs ↔
      ws.length ≤ 1 ∨ ws.take 2 = vs.take 2 ∧ (2 < ws.length ↔ 2 < vs.length) := by
  by_cases hone : ws.length ≤ 1
  · rw [formsOf_of_length_le hone, formsOf_of_length_le (hpart.length_le.trans hone)]
    simp [hone]
  rw [or_iff_right hone]
  rcases ws with - | ⟨a, - | ⟨b, - | ⟨c, ws⟩⟩⟩
  · simp at hone
  · simp at hone
  · -- A part of two words is none of them, one of them, or both.
    rcases vs with - | ⟨x, - | ⟨y, vs⟩⟩
    · simp [formsOf]
    · simp [formsOf]
    · have hlen : [a, b].length ≤ (x :: y :: vs).length := by simp
      rw [hpart.eq_of_length_le hlen]
      simp
  · rcases vs with - | ⟨x, - | ⟨y, - | ⟨z, vs⟩⟩⟩
    · simp [formsOf]
    · simp [formsOf]
    · simp [formsOf]
    · have hvs : ∀ w ∈ x :: y :: z :: vs, Text.IsWord w := fun w hw => hws w (hpart.subset hw)
      rw [List.forall_mem_cons, List.forall_mem_cons] at hws hvs
      have hjoin : " ".intercalate [a, b] = " ".intercalate [x, y] ↔ [a, b] = [x, y] := by
        have hab : ∀ w ∈ [a, b], Text.IsWord w := by simp [hws.1, hws.2.1]
        have hxy : ∀ w ∈ [x, y], Text.IsWord w := by simp [hvs.1, hvs.2.1]
        refine ⟨fun h => ?_, congrArg _⟩
        rw [← Text.words_intercalate hab, h, Text.words_intercalate hxy]
      rw [formsOf_cons_cons_cons, formsOf_cons_cons_cons, List.cons.injEq, hjoin]
      exact ⟨fun h => ⟨h.1, by simp⟩, fun h => ⟨h.1, congrArg (List.take 1) h.1⟩⟩

theorem nodup_formsOf (h : ∀ w ∈ ws, Text.IsWord w) : (formsOf ws).Nodup := by
  refine (pairwise_formsOf h).imp fun hlt => ?_
  rintro rfl
  exact Nat.lt_irrefl _ hlt

/-- Two lists of forms are the same, apart from some texts, if the same texts are in them. -/
theorem filter_formsOf_eq_iff (hws : ∀ w ∈ ws, Text.IsWord w) (hvs : ∀ w ∈ vs, Text.IsWord w)
    (texts : List String) :
    (formsOf ws).filter (· ∉ texts) = (formsOf vs).filter (· ∉ texts) ↔
      ∀ s, s ∉ texts → (s ∈ formsOf ws ↔ s ∈ formsOf vs) := by
  have hmem : (∀ s, s ∈ (formsOf ws).filter (· ∉ texts) ↔ s ∈ (formsOf vs).filter (· ∉ texts)) ↔
      ∀ s, s ∉ texts → (s ∈ formsOf ws ↔ s ∈ formsOf vs) := by
    simp only [List.mem_filter, decide_eq_true_iff, and_congr_left_iff]
  rw [← hmem]
  refine ⟨fun heq s => by rw [heq], fun h => ?_⟩
  have hperm := (List.perm_ext_iff_of_nodup ((nodup_formsOf hws).filter _)
    ((nodup_formsOf hvs).filter _)).mpr h
  exact List.Perm.eq_of_pairwise (fun _ _ _ _ hst hts => absurd hst (Nat.lt_asymm hts))
    ((pairwise_formsOf hws).filter _) ((pairwise_formsOf hvs).filter _) hperm

end

/-! ## What is given and what is added -/

section
variable (query : String) (alternatives : List String)

/-- The query and its alternatives without the blanks around them, but for those that are blank. -/
def given : List String :=
  ((query :: alternatives).map Text.trim).filter fun s => !Text.isBlankText s

/-- What is tried for a query beyond what is given. -/
def added : List String := (all query alternatives).filter (· ∉ given query alternatives)

/-- The words of a query that are longer than three bytes. -/
def byBytes : List String := (Text.words query).filter fun w => 3 < w.utf8ByteSize

/-- The words of a query that are longer than three characters. -/
def byChars : List String := (Text.words query).filter fun w => 3 < w.length

theorem given_eq : given query alternatives =
    (Text.trim query :: alternatives.map Text.trim).filter (· ≠ "") := by
  refine List.filter_congr fun s hs => ?_
  obtain ⟨t, -, rfl⟩ := List.mem_map.mp hs
  cases ht : Text.isBlankText t with
  | true => simp [Text.trim_of_isBlankText ht, Text.isBlankText]
  | false =>
    have hlabel := Text.IsLabel.of_trim ht
    have hne : Text.trim t ≠ "" := by
      intro heq
      rw [heq] at hlabel
      exact absurd hlabel.isBlankText (by decide)
    simp [hne, hlabel.isBlankText]

theorem shortened_trim : shortened (Text.trim query) = formsOf (byBytes query) := by
  have hlong : longWords (Text.trim query) = byBytes query := by
    rw [longWords, Text.words_trim, byBytes]
  unfold shortened
  rw [hlong]
  rcases byBytes query with - | ⟨a, - | ⟨b, - | ⟨c, rest⟩⟩⟩
  · rfl
  · rfl
  · rfl
  · simp [formsOf]

theorem isWord_of_mem_byBytes : ∀ w ∈ byBytes query, Text.IsWord w :=
  fun _ hw => Text.isWord_of_mem_words (List.mem_of_mem_filter hw)

theorem isWord_of_mem_byChars : ∀ w ∈ byChars query, Text.IsWord w :=
  fun _ hw => Text.isWord_of_mem_words (List.mem_of_mem_filter hw)

/-- No word has more characters than bytes. -/
theorem byChars_sublist : (byChars query).Sublist (byBytes query) := by
  refine List.monotone_filter_right _ fun w hw => ?_
  rw [decide_eq_true_iff] at hw ⊢
  exact hw.trans_le (Text.length_le_utf8ByteSize w)

/-- What is given comes first, and what is added are the shortened forms that are not given. -/
theorem all_eq : all query alternatives =
    distinct [] (given query alternatives) ++
      (formsOf (byBytes query)).filter (· ∉ given query alternatives) := by
  have hforms := nodup_formsOf (isWord_of_mem_byBytes query)
  simp only [all, ← given_eq, shortened_trim, distinct_append, List.append_nil,
    distinct_of_nodup _ hforms]

/-- What is tried for a query. -/
structure Tries (tried : List String) : Prop where
  notBlank : ∀ s ∈ tried, Text.isBlankText s = false
  nodup : tried.Nodup
  head? : Text.isBlankText query = false → tried.head? = some (Text.trim query)
  given_first : ∃ firsts more, tried = firsts ++ more ∧
    FirstOccurrences (given query alternatives) firsts ∧ more.length ≤ 2

theorem tries_all : Tries query alternatives (all query alternatives) where
  notBlank s hs := by
    rw [all_eq, List.mem_append, mem_distinct] at hs
    obtain ⟨hgiven, -⟩ | hmore := hs
    · simpa using (List.mem_filter.mp hgiven).2
    · have hform := List.mem_of_mem_filter hmore
      have hwords := (words_of_mem_formsOf (isWord_of_mem_byBytes query) hform).1
      exact Bool.eq_false_iff.mpr fun hblank => hwords (Text.words_of_isBlankText hblank)
  nodup := nodup_distinct _ _
  head? hquery := by
    have hgiven : (given query alternatives).head? = some (Text.trim query) := by
      rw [given, List.map_cons, List.filter_cons_of_pos (by simp [Text.isBlankText_trim, hquery]),
        List.head?_cons]
    obtain ⟨rest, hrest⟩ := List.head?_eq_some_iff.mp hgiven
    rw [all_eq, hrest]
    rfl
  given_first := by
    refine ⟨_, _, all_eq query alternatives, firstOccurrences_distinct _, ?_⟩
    exact (List.length_filter_le _ _).trans (length_formsOf_le _)

theorem added_eq : added query alternatives =
    (formsOf (byBytes query)).filter (· ∉ given query alternatives) := by
  have hgiven :
      (distinct [] (given query alternatives)).filter (· ∉ given query alternatives) = [] := by
    simp [mem_distinct]
  rw [added, all_eq, List.filter_append, hgiven, List.nil_append, List.filter_filter]
  simp only [Bool.and_self]

/-- The shortened forms by characters that are not given. -/
def specified : List String := (formsOf (byChars query)).filter (· ∉ given query alternatives)

/-- A form of the long words of a query is not the query. -/
theorem not_mem_given_nil {ws : List String} (hws : ws.Sublist (Text.words query)) {s : String}
    (hs : s ∈ formsOf ws) : s ∉ given query [] := by
  have hlen := (words_of_mem_formsOf (fun w hw => Text.isWord_of_mem_words (hws.subset hw)) hs).2
  intro hmem
  obtain rfl : s = Text.trim query := by simpa using List.mem_of_mem_filter hmem
  rw [Text.words_trim] at hlen
  exact Nat.lt_irrefl _ (hlen.trans_le hws.length_le)

end

/-- What is added goes by bytes. It is the same by characters exactly if the forms that differ are
given anyway, and this whatever the alternatives are exactly if the query has at most one word of
more than three bytes, or if the first two of these have more than three characters and a third is
there by both counts or by neither. -/
theorem added_eq_specified_iff (query : String) :
    (∀ alternatives, added query alternatives =
      (formsOf (byBytes query)).filter (· ∉ given query alternatives)) ∧
    (∀ alternatives, added query alternatives = specified query alternatives ↔
      ∀ s, s ∉ given query alternatives →
        (s ∈ formsOf (byBytes query) ↔ s ∈ formsOf (byChars query))) ∧
    ((∀ alternatives, added query alternatives = specified query alternatives) ↔
      (byBytes query).length ≤ 1 ∨ (byBytes query).take 2 = (byChars query).take 2 ∧
        (2 < (byBytes query).length ↔ 2 < (byChars query).length)) := by
  have hbytes := isWord_of_mem_byBytes query
  have hchars := isWord_of_mem_byChars query
  have hiff (alternatives : List String) :
      added query alternatives = specified query alternatives ↔
        ∀ s, s ∉ given query alternatives →
          (s ∈ formsOf (byBytes query) ↔ s ∈ formsOf (byChars query)) := by
    rw [added_eq, specified, filter_formsOf_eq_iff hbytes hchars]
  refine ⟨added_eq query, hiff, ?_⟩
  rw [← formsOf_eq_iff hbytes (byChars_sublist query)]
  constructor
  · -- With no alternatives, nothing that is added is given.
    intro h
    have halone := (hiff []).mp (h [])
    have hnone := filter_formsOf_eq_iff hbytes hchars []
    simp only [List.not_mem_nil, not_false_eq_true, decide_true, List.filter_true] at hnone
    refine hnone.mpr fun s _ => ⟨fun hs => ?_, fun hs => ?_⟩
    · exact (halone s (not_mem_given_nil query List.filter_sublist hs)).mp hs
    · exact (halone s (not_mem_given_nil query List.filter_sublist hs)).mpr hs
  · intro h alternatives
    rw [added_eq, specified, h]

/-- Cyrillic letters take two bytes, so a word of two of them is taken for a long one. -/
theorem added_ne_specified_of_short_words : added "на юге дом" [] ≠ specified "на юге дом" [] := by
  decide +kernel

end Montage.Query
