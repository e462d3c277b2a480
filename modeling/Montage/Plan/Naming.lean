import Montage.Task.Basic
import Montage.Plan.Correction

/-!
# Names of fetched media

A fetched medium is of use only under a name. A fetch without one is given the name `stock_N`, with
the least number above the number given before for which that name is still free.
-/

namespace Montage

namespace Plan
variable {T : Type}

def stockName (n : Nat) : String := "stock_" ++ toString n

/-- The names that tasks give their outputs, and the name of the source. -/
def declaredNames (ts : Plan T) : List String := ts.filterMap Task.output ++ [sourceName]

/-- The least number above `n` whose name is not among `used`. Of one number more than there are
used names, some name is free. -/
def nextNumber (used : List String) (n : Nat) : Nat :=
  ((List.range' (n + 1) (used.length + 1)).find? fun i => !used.contains (stockName i)).getD (n + 1)

/-- The tasks from position `i` on with names for all fetches, after the number `n`. -/
def nameFrom (used : List String) (n i : Nat) : Plan T → Repaired T (Plan T)
  | [] => .clean []
  | t :: rest =>
    if t.isFetch && t.output.isNone then
      let n := nextNumber used n
      let name := stockName n
      let r := nameFrom (name :: used) n (i + 1) rest
      ⟨{ t with output := some name } :: r.plan, .assignedOutput i name :: r.corrections⟩
    else
      let r := nameFrom used n (i + 1) rest
      ⟨t :: r.plan, r.corrections⟩

def nameFetches (ts : Plan T) : Repaired T (Plan T) := nameFrom ts.declaredNames 0 0 ts

end Plan

end Montage
