import Montage.Time.Scale

/-!
# Tenths of a second

Windows of insertions start and end on the grid of tenths. A time that is on the grid up to an error
of a billionth of a tenth counts as on it when it is moved up or down.
-/

namespace Montage.Tenth
open TimeScale
variable {T : Type} [TimeScale T]

/-- How far from the grid a number of tenths may be and still count as whole. -/
def tolerance : T := ofDecimal ⟨false, 1, -9⟩

def nearest (t : T) : T := TimeScale.round (t * ofNat 10) / ofNat 10

/-- Least tenth that is not below `t`. -/
def above (t : T) : T := TimeScale.ceil (t * ofNat 10 - tolerance) / ofNat 10

/-- Greatest tenth that is not above `t`. -/
def below (t : T) : T := TimeScale.floor (t * ofNat 10 + tolerance) / ofNat 10

end Montage.Tenth
