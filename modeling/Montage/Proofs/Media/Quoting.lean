import Mathlib.Data.List.Basic

/-!
# Quoted text

How the media tool reads a text with quotes. Between single quotes every character is literal up to
the next quote; outside of them a backslash makes the next character literal. What stands between
quotes is therefore read as it is written, as long as it has no quote of its own.
-/

namespace Montage.Quoting

/-- The characters that a text stands for, each with whether it is literal. The text begins inside
quotes or outside of them. Quotes that are not closed reach to the end, and a backslash with nothing
behind it stands for itself. -/
def scan : Bool → List Char → List (Char × Bool)
  | _, [] => []
  | true, c :: cs => if c = '\x27' then scan false cs else (c, true) :: scan true cs
  | false, '\\' :: c :: cs => (c, true) :: scan false cs
  | false, c :: cs => if c = '\x27' then scan true cs else (c, false) :: scan false cs

/-- The characters that a text stands for. -/
def read (cs : List Char) : List Char := (scan false cs).map Prod.fst

/-- A character that is no quote and no backslash. -/
def IsPlain (c : Char) : Prop := c ≠ '\x27' ∧ c ≠ '\\'

instance (c : Char) : Decidable (IsPlain c) := inferInstanceAs (Decidable (_ ∧ _))

theorem scan_quote (cs : List Char) : scan false ('\x27' :: cs) = scan true cs := by
  simp [scan]

theorem scan_backslash (c : Char) (cs : List Char) :
    scan false ('\\' :: c :: cs) = (c, true) :: scan false cs := by
  simp [scan]

theorem scan_cons {c : Char} (hc : IsPlain c) (cs : List Char) :
    scan false (c :: cs) = (c, false) :: scan false cs := by
  rw [scan.eq_4 _ _ fun d _ hd => absurd hd hc.2, if_neg hc.1]

/-- Between quotes a text without a quote is literal. -/
theorem scan_quoted {s : List Char} (hs : '\x27' ∉ s) (cs : List Char) :
    scan true (s ++ '\x27' :: cs) = s.map (·, true) ++ scan false cs := by
  induction s with
  | nil => simp [scan]
  | cons c s ih =>
    rw [List.mem_cons, not_or] at hs
    simp [scan, Ne.symm hs.1, ih hs.2]

theorem read_backslash (c : Char) (cs : List Char) : read ('\\' :: c :: cs) = c :: read cs := by
  rw [read, scan_backslash]
  rfl

theorem read_cons {c : Char} (hc : IsPlain c) (cs : List Char) : read (c :: cs) = c :: read cs := by
  rw [read, scan_cons hc]
  rfl

/-- Outside of quotes plain characters stand for themselves. -/
theorem read_append {s : List Char} (hs : ∀ c ∈ s, IsPlain c) (cs : List Char) :
    read (s ++ cs) = s ++ read cs := by
  induction s with
  | nil => rfl
  | cons c s ih =>
    rw [List.forall_mem_cons] at hs
    rw [List.cons_append, read_cons hs.1, ih hs.2, List.cons_append]

theorem read_quoted {s : List Char} (hs : '\x27' ∉ s) (cs : List Char) :
    read ('\x27' :: s ++ '\x27' :: cs) = s ++ read cs := by
  simp [read, scan_quote, scan_quoted hs, Function.comp_def]

end Montage.Quoting
