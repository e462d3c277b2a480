/-!
# Classes of characters

A class of characters is a list of closed ranges of code points. The tables of the other modules
are in ascending order; nothing here depends on that.
-/

namespace Montage.Text

/-- Closed ranges of code points. -/
abbrev Ranges := List (Nat × Nat)

/-- The class that `r` lists has `c` as a member. -/
def Ranges.has (r : Ranges) (c : Char) : Bool :=
  r.any fun (lo, hi) => lo ≤ c.toNat && c.toNat ≤ hi

theorem Ranges.has_iff {r : Ranges} {c : Char} :
    r.has c = true ↔ ∃ p ∈ r, p.1 ≤ c.toNat ∧ c.toNat ≤ p.2 := by
  simp [Ranges.has]

end Montage.Text
