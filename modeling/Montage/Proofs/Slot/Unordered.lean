import Montage.Proofs.Time.Order
import Montage.Slot.Ranking

/-!
# Proposals in any order

Each slot that is placed pushes the next, and the number of slots cuts off the rest, so the order in
which proposals are placed matters. The order in which they are made does not: main statement, that
proposals which start at different times give the same slots, however they are permuted.
-/

namespace Montage
open TimeScale

namespace InsertRules

/-- Proposals whose finite starts differ give the same slots in any order. -/
theorem fix_eq_of_perm (r : InsertRules Float) {ps qs : List (Proposal Float)} (h : ps.Perm qs)
    (hdistinct : ((ps.map Proposal.start).filter Float.isFinite).Nodup) (duration : Float) :
    r.fix ps duration = r.fix qs duration := by
  let finite (p : Proposal Float) : Bool := isFinite p.start
  have hfinite : ((ps.filter finite).map Proposal.start).Nodup := by
    rwa [List.filter_map] at hdistinct
  have hsorted := Ascends.mergeSort_eq_of_perm Proposal.start (h.filter finite) hfinite
  change r.place _ _ _ ((ps.filter finite).mergeSort _) =
    r.place _ _ _ ((qs.filter finite).mergeSort _)
  rw [hsorted]

/-- Three proposals, one of them at no time at all. -/
def muddledProposals : List (Proposal Float) :=
  [⟨30.5, none, none, "", "sea", []⟩, ⟨0.0 / 0.0, some 9.0, none, "", "fog", []⟩,
    ⟨12.25, some 17.0, some "city", "", "", []⟩]

theorem fix_eq_of_perm_muddledProposals :
    muddledProposals.reverse.Perm muddledProposals ∧
      ((muddledProposals.reverse.map Proposal.start).filter Float.isFinite).Nodup ∧
      default.fix muddledProposals.reverse 60.0 = default.fix muddledProposals 60.0 := by
  have hperm : muddledProposals.reverse.Perm muddledProposals := List.reverse_perm _
  have hdistinct : ((muddledProposals.reverse.map Proposal.start).filter Float.isFinite).Nodup := by
    decide +kernel
  exact ⟨hperm, hdistinct, fix_eq_of_perm default hperm hdistinct 60.0⟩

end InsertRules

end Montage
