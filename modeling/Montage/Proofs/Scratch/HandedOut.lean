import Montage.Proofs.Scratch.Issued

/-!
# Paths that are asked for one after the other

A stem may be free text, with underscores, digits, dots and slashes of its own, and random digits
may come twice. What keeps the paths of one directory apart is the number in each of their names. It
is read from behind, where it stands between the last two underscores in front of the last dot.
-/

namespace Montage.Scratch
variable {s : Scratch} {calls : List (String × String)} {p : Path}

/-- The paths that are given out one after the other for stems and extensions. -/
def handedOut (s : Scratch) : List (String × String) → List Path
  | [] => []
  | (stem, extension) :: calls => s.next stem extension :: s.advance.handedOut calls

/-- Each of the paths has a number that had not been given out before. -/
theorem exists_of_mem_handedOut (h : p ∈ s.handedOut calls) :
    ∃ n, s.issued ≤ n ∧ ∃ c ∈ calls, p = s.pathAt n c.1 c.2 := by
  induction calls generalizing s with
  | nil => exact absurd h List.not_mem_nil
  | cons c calls ih =>
    obtain rfl | h := List.mem_cons.mp h
    · exact ⟨s.issued, Nat.le_refl _, c, List.mem_cons_self, rfl⟩
    · obtain ⟨n, hn, d, hd, rfl⟩ := ih h
      exact ⟨n, Nat.le_of_succ_le hn, d, List.mem_cons_of_mem c hd, rfl⟩

/-- No two of the paths are written alike or lead to one place, if the extensions are plain. -/
theorem pairwise_handedOut (hs : s.Unmarked) (hcalls : ∀ c ∈ calls, Plain c.2) :
    (s.handedOut calls).Pairwise fun p q =>
      p.same q = false ∧ ∀ here, p.lands here ≠ q.lands here := by
  induction calls generalizing s with
  | nil => exact List.Pairwise.nil
  | cons c calls ih =>
    rw [List.forall_mem_cons] at hcalls
    have hrest := ih (s := s.advance) ⟨hs.slashless, hs.noUnderscore⟩ hcalls.2
    refine List.pairwise_cons.mpr ⟨fun q hq => ?_, hrest⟩
    obtain ⟨n, hn, d, hd, rfl⟩ := exists_of_mem_handedOut hq
    have hlater : s.issued ≠ n := Nat.ne_of_lt hn
    have hapart := lands_pathAt_ne hs hlater c.1 d.1 hcalls.1 (hcalls.2 d hd)
    exact ⟨Bool.eq_false_iff.mpr fun hsame => hapart [] (Path.lands_eq_of_same hsame []), hapart⟩

/-- Stems that look like names with a number, around the first number of four digits. -/
theorem pairwise_handedOut_lookalikes :
    let s : Scratch := ⟨⟨"/tmp/cut"⟩, false, fun _ => "0a1b2c3d", 998⟩
    let calls := [("stock_a.b", "mp4"), ("stock_a.b_998_0a1b2c3d.mp4", "mp4"), ("cut_1000", ""),
      ("../cut/cut", "txt")]
    s.Unmarked ∧ (∀ c ∈ calls, Plain c.2) ∧
      s.handedOut calls = [⟨"/tmp/cut/stock_a.b_998_0a1b2c3d.mp4"⟩,
        ⟨"/tmp/cut/stock_a.b_998_0a1b2c3d.mp4_999_0a1b2c3d.mp4"⟩,
        ⟨"/tmp/cut/cut_1000_1000_0a1b2c3d."⟩, ⟨"/tmp/cut/../cut/cut_1001_0a1b2c3d.txt"⟩] ∧
      (s.handedOut calls).Pairwise fun p q =>
        p.same q = false ∧ ∀ here, p.lands here ≠ q.lands here := by
  intro s calls
  have hs : s.Unmarked :=
    ⟨fun _ => (by decide : '/' ∉ "0a1b2c3d".toList), fun _ => (by decide : '_' ∉ "0a1b2c3d".toList)⟩
  have hcalls : ∀ c ∈ calls, Plain c.2 := by decide
  exact ⟨hs, hcalls, by decide +kernel, pairwise_handedOut hs hcalls⟩

end Montage.Scratch
