import Starfilm.Raster.Image

/-!
# Animations

An animation is a list of pictures, each with the time for which it is shown. All of them are shown
on one canvas, the size of the first; what a later picture has beyond the canvas is cut off, and
where it is smaller the canvas is black.
-/

namespace Starfilm

/-- A picture of an animation. -/
structure Still where
  /-- How long it is shown, in milliseconds. -/
  delay : Nat
  image : Image
  deriving DecidableEq, Inhabited

/-- Pictures shown one after another. -/
structure Animation where
  stills : List Still
  /-- Whether it starts again at the end. -/
  forever : Bool
  deriving DecidableEq, Inhabited

/-- An image on a canvas of another size. -/
def Image.onCanvas (i : Image) (width height : Nat) : Image :=
  if i.width = width ∧ i.height = height then i else .ofPixels width height i.pixel

/-- The pictures as they are shown. -/
def Animation.shown (a : Animation) : List Still :=
  match a.stills with
  | [] => []
  | s :: rest =>
    s :: rest.map fun t => { t with image := t.image.onCanvas s.image.width s.image.height }

end Starfilm
