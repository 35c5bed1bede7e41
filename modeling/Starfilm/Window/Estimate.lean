import Starfilm.Window
import Starfilm.Window.Percentile
import Starfilm.Window.Settings

/-!
# The window of a run

One window serves every frame, so the points of all classes of all frames are pooled before it is
estimated. Points without two finite coordinates take no part. On each axis the window spans the
two percentiles of the pooled coordinates and the padding around them; in views from the side its
height is a fixed fraction of its width, about zero.
-/

namespace Starfilm

variable {F : Type} [Arith F]

/-- The finite points of all sets together. -/
def pool (sets : List (List (Point F))) : List (Point F) := sets.flatten.filter Point.isFinite

/-- A range with a width: one that has none is widened by a twentieth of its place at both ends, or
to a twentieth around zero. -/
def nonsingular (lo hi : F) : F × F :=
  let twentieth : F := Arith.decimal 5 2
  if Arith.lt lo hi then (lo, hi)
  else if Arith.eqv lo (Arith.nat 0) then (-twentieth, twentieth)
  else (lo - twentieth * Arith.magnitude lo, hi + twentieth * Arith.magnitude hi)

/-- The padded range of the percentiles of some coordinates. -/
def paddedRange (s : Framing F) (values : List F) : F × F :=
  let sorted := values.mergeSort Arith.totalLe
  let lo := (percentile sorted s.lowerPercentile).getD (Arith.nat 0)
  let hi := (percentile sorted s.upperPercentile).getD (Arith.nat 0)
  let pad := s.padding * (hi - lo)
  nonsingular (lo - pad) (hi + pad)

/-- The window of the pooled points of some sets. With `thin`, its height follows its width. -/
def estimate (s : Framing F) (thin : Bool) (sets : List (List (Point F))) :
    Except Failure (Window F) :=
  match pool sets with
  | [] => .error .nothingToFrame
  | points =>
    let (xmin, xmax) := paddedRange s (points.map (·.x))
    let (ymin, ymax) :=
      if thin then
        let half := s.thinAxisRatio * (xmax - xmin)
        (-half, half)
      else paddedRange s (points.map (·.y))
    .ok ⟨xmin, xmax, ymin, ymax⟩

end Starfilm
