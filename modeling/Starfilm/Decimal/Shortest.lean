import Starfilm.Arith.Binary

/-!
# The shortest decimal

Of the decimals that read back as a given binary number, `Binary.Format.shortest` picks one with
the fewest digits, and among those the nearest; an exact tie goes up. All of it is integer
arithmetic: a number `m * 2 ^ e` is the reading of every real between the midpoints to its two
neighbours, ends included when `m` is even, and in quarters of its last place these bounds are
integers (`Interval`). A decimal grid `10 ^ k` has a point in that interval only if one of the two
grid points around the number itself is in it, so each grid needs two tests.
-/

namespace Starfilm

namespace Binary

/-- The reals that round to a number, as `low`, `value` and `high` over a common unit. -/
structure Interval where
  low : Nat
  value : Nat
  high : Nat
  /-- Whether the ends belong to it. -/
  closed : Bool
  deriving Repr

/-- The interval of `m * 2 ^ e`, in units of `2 ^ (e - 2)`. Below a power of two the neighbour is
half as far. -/
def Format.interval (f : Format) (m : Nat) (e : Int) : Interval where
  low := if m = 1 <<< f.fractionWidth && e > f.lowest then 4 * m - 1 else 4 * m - 2
  value := 4 * m
  high := 4 * m + 2
  closed := m % 2 == 0

/-- The point of the grid `10 ^ k` in the interval that is nearest to the value, if there is one.
A grid too coarse to have a point between zero and the value is passed over. -/
def Interval.onGrid (i : Interval) (e k : Int) : Option Nat :=
  let scale := Nat.pow 10 (-k).toNat <<< (e - 2).toNat
  let step := Nat.pow 10 k.toNat <<< (2 - e).toNat
  let c := i.value * scale / step
  let fits (a b : Nat) : Bool := a < b || (i.closed && a == b)
  let below := fits (i.low * scale) (c * step)
  let above := fits ((c + 1) * step) (i.high * scale)
  if c = 0 then none
  else if below && above then
    some (if i.value * scale - c * step < (c + 1) * step - i.value * scale then c else c + 1)
  else if below then some c
  else if above then some (c + 1)
  else none

/-- The first of the grids `10 ^ k`, `10 ^ (k - 1)`, … with a point in the interval, with that
point. -/
def Interval.firstGrid (i : Interval) (e : Int) : Nat → Int → Nat × Int
  | 0, k => (i.value, k)
  | n + 1, k =>
    match i.onGrid e k with
    | some c => (c, k)
    | none => i.firstGrid e n (k - 1)

/-- `(c, k)` without the zeros at the end of `c`. -/
def trimZeros : Nat → Nat → Int → Nat × Int
  | 0, c, k => (c, k)
  | n + 1, c, k => if c % 10 = 0 then trimZeros n (c / 10) (k + 1) else (c, k)

/-- The shortest decimal `c * 10 ^ k` that reads back as `m * 2 ^ e`. -/
def Format.shortest (f : Format) (m : Nat) (e : Int) : Nat × Int :=
  if m = 0 then (0, 0) else
    -- one above the exponent of the leading digit, or two
    let top := ((e + m.log2) * 1233) / 4096 + 1
    let (c, k) := (f.interval m e).firstGrid e 24 top
    trimZeros 20 c k

end Binary

end Starfilm
