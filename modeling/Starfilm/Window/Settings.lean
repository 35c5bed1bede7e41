import Starfilm.Decimal.Text
import Starfilm.Failure

/-!
# Framing settings

How closely the window follows the points. The defaults were chosen by eye for colliding galaxies.
`validate` refuses settings that no window can follow, and the first rule that is broken is the one
reported.
-/

namespace Starfilm

/-- How the window is found from the points. -/
structure Framing (F : Type) where
  /-- Percentage of the coordinates on each axis that may fall short of the window. -/
  lowerPercentile : F
  /-- Percentage of the coordinates on each axis up to which the window reaches. -/
  upperPercentile : F
  /-- Fraction of the percentile range added at both ends. -/
  padding : F
  /-- Half the height of the window as a fraction of its width, where the height is not taken from
  the points. -/
  thinAxisRatio : F
  /-- Whether tilted views take the height from the width, as edge-on views do. -/
  tiltedThinAxis : Bool
  deriving DecidableEq, Repr

namespace Framing

variable {F : Type} [Arith F]

/-- From the first to the ninety-ninth percentile, a tenth of that range around it, and a height of
two thirds of the width in views from the side. -/
def default : Framing F where
  lowerPercentile := Arith.nat 1
  upperPercentile := Arith.nat 99
  padding := Arith.decimal 1 1
  thinAxisRatio := Arith.nat 1 / Arith.nat 3
  tiltedThinAxis := true

/-- A percentage. -/
def isPercentage (p : F) : Bool := Arith.le (Arith.nat 0) p && Arith.le p (Arith.nat 100)

/-- Whether a window can be found by these settings. -/
def validate [DecimalText F] (s : Framing F) : Except Failure Unit :=
  let write : F → String := DecimalText.shortest
  if !(isPercentage s.lowerPercentile && isPercentage s.upperPercentile) then
    .error (.invalidSettings (s!"percentiles must lie in 0..=100, got {write s.lowerPercentile}" ++
      s!" and {write s.upperPercentile}"))
  else if Arith.le s.upperPercentile s.lowerPercentile then
    .error (.invalidSettings (s!"lower percentile {write s.lowerPercentile} must be below upper" ++
      s!" percentile {write s.upperPercentile}"))
  else if !Arith.le (Arith.nat 0) s.padding then
    .error (.invalidSettings s!"padding must be non-negative, got {write s.padding}")
  else if !Arith.lt (Arith.nat 0) s.thinAxisRatio then
    .error (.invalidSettings s!"thin-axis ratio must be positive, got {write s.thinAxisRatio}")
  else .ok ()

end Framing

end Starfilm
