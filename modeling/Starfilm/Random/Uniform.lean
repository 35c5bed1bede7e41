import Starfilm.Random.Source

/-!
# Uniform distributions

A uniform distribution is a scale and an offset for fractions. The scale is chosen so that the
largest fraction stays within the range even after rounding: a scale that is too large is lowered
to the next number below until it fits.
-/

namespace Starfilm

/-- The distribution of `offset + scale * u` for fractions `u`. -/
structure Uniform (F : Type) where
  offset : F
  scale : F

namespace Uniform

variable {F : Type} [Arith F]

/-- The first of the numbers from `scale` downwards that is not too large. -/
def lowered (tooLarge : F → Bool) : Nat → F → F
  | 0, scale => scale
  | n + 1, scale => if tooLarge scale then lowered tooLarge n (Arith.below scale) else scale

/-- The steps by which a scale may be lowered; rounding asks for one or two. -/
def maxSteps : Nat := 64

/-- The largest value of a distribution from `a` with a given scale. -/
def largest (a scale : F) : F := scale * Fraction.maxUnit + a

/-- From `a`, below `b`. -/
def below (a b : F) : Except Failure (Uniform F) :=
  let scale := b - a
  if !Arith.lt a b || !Arith.isFinite scale then .error .emptyRange
  else .ok ⟨a, lowered (fun s => Arith.le b (largest a s)) maxSteps scale⟩

/-- From `a` to `b`, both included. -/
def upTo (a b : F) : Except Failure (Uniform F) :=
  let scale := (b - a) / Fraction.maxUnit
  if !Arith.le a b || !Arith.isFinite scale then .error .emptyRange
  else .ok ⟨a, lowered (fun s => Arith.lt b (largest a s)) maxSteps scale⟩

/-- A value of the distribution. -/
def sample {S : Type} [Source S] (d : Uniform F) : Draws S F := do
  let w ← Draws.word
  return Fraction.unit w * d.scale + d.offset

end Uniform

end Starfilm
