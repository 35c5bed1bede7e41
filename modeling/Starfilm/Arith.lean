/-!
# Arithmetic without laws

Everything this library computes from coordinates is written once over `Arith`, the list of the
operations it needs, and no law is asked of them. Two kinds of numbers are meant to stand behind
it: machine numbers, which round and know infinities and values that are no number, and exact
ordered fields, in which the geometry can be reasoned about.

The order is given as a Boolean test `le` because machine numbers have values that compare with
nothing, themselves included; `isNaN` recognises these. `totalLe` is a second order, one that
puts every value in a place, and it is the one that sorting uses.
-/

namespace Starfilm

/-- Directions in which a number is brought to an integer. -/
inductive Rounding where
  | down
  | up
  | towardZero
  /-- To the nearest integer, a half away from zero. -/
  | nearest
  deriving DecidableEq, Repr

/-- Numbers that coordinates, times and masses can be made of. -/
class Arith (F : Type) extends Add F, Sub F, Mul F, Div F, Neg F where
  /-- The number nearest to an integer. -/
  ofInt : Int → F
  /-- `decimal m k` is the number nearest to `m / 10 ^ k`. -/
  decimal : Int → Nat → F
  /-- The value without its sign. -/
  magnitude : F → F
  /-- The order of values; false when either side is no number. -/
  le : F → F → Bool
  /-- The order of representations, in which everything has a place. -/
  totalLe : F → F → Bool
  /-- Neither infinite nor without a value. -/
  isFinite : F → Bool
  /-- `toInt r lo hi x` rounds `x` in direction `r` and brings the result into `lo..hi`. What is
  no number becomes `0`. -/
  toInt : Rounding → Int → Int → F → Int
  /-- The next smaller positive number, where there is one. -/
  below : F → F

namespace Arith

variable {F : Type} [Arith F]

/-- A natural number as a value. -/
abbrev nat (n : Nat) : F := ofInt (n : Int)

/-- Strictly smaller. -/
def lt (a b : F) : Bool := le a b && !le b a

/-- Equal in value: `0` and `-0` are, and what is no number equals nothing. -/
def eqv (a b : F) : Bool := le a b && le b a

/-- Not a number: such a value is not even below itself. -/
def isNaN (a : F) : Bool := !le a a

/-- The smaller of two values, and the other one when one is no number. -/
def min (a b : F) : F := if le a b then a else if le b b then b else a

/-- The larger of two values, and the other one when one is no number. -/
def max (a b : F) : F := if le b a then a else if le b b then b else a

/-- `x` brought between `lo` and `hi`; what is no number stays as it is. -/
def clamp (lo hi x : F) : F := if lt x lo then lo else if lt hi x then hi else x

/-- The sum of a list from the left. It starts from `-0`, the value that changes nothing it is
added to. -/
def sum (xs : List F) : F := xs.foldl (· + ·) (-nat 0)

end Arith

/-- The largest index a list can be read at. -/
def maxIndex : Int := 0xFFFFFFFFFFFFFFFF

/-- The bounds of 64-bit integers with a sign. -/
def minWord : Int := -0x8000000000000000

/-- See `minWord`. -/
def maxWord : Int := 0x7FFFFFFFFFFFFFFF

/-- The largest 32-bit count, such as a number of pixels. -/
def maxCount : Nat := 0xFFFFFFFF

end Starfilm
