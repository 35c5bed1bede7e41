import Starfilm.Arith

/-!
# Binary floating point

What the two machine number types share: a pattern of bits without its sign, its *magnitude*, is
read as `m * 2 ^ e`, as infinite, or as no number (`Format.read`), and a value `m * 2 ^ e` is
written as the magnitude nearest to it (`Format.write`). Bringing such a value to an integer is
exact integer arithmetic (`Rounding.scaled`).
-/

namespace Starfilm

/-- The integer next to `m * 2 ^ e`, or to its negative, in direction `r`. -/
def Rounding.scaled (r : Rounding) (negative : Bool) (m : Nat) (e : Int) : Int :=
  let unit := 1 <<< (-e).toNat
  let whole := m <<< e.toNat / unit
  let cut := m <<< e.toNat % unit != 0
  let size :=
    match r with
    | .towardZero => whole
    | .nearest => (2 * m <<< e.toNat + unit) / (2 * unit)
    | .down => if negative && cut then whole + 1 else whole
    | .up => if !negative && cut then whole + 1 else whole
  if negative then -(size : Int) else size

namespace Binary

/-- What a magnitude stands for. -/
inductive Reading where
  /-- The value `m * 2 ^ e`. -/
  | finite (m : Nat) (e : Int)
  | infinite
  | nan
  deriving DecidableEq, Repr

/-- A layout of magnitudes: the widths of their exponent and fraction fields. -/
structure Format where
  exponentWidth : Nat
  fractionWidth : Nat
  deriving DecidableEq, Repr

namespace Format

variable (f : Format)

/-- The exponent of the last place of the smallest numbers. -/
def lowest : Int := 2 - (1 <<< (f.exponentWidth - 1) : Nat) - f.fractionWidth

/-- The magnitude of infinity; greater magnitudes are no numbers. -/
def infinity : Nat := (1 <<< f.exponentWidth - 1) <<< f.fractionWidth

/-- The value of a magnitude. -/
def read (magnitude : Nat) : Reading :=
  if magnitude < f.infinity then
    let exponent := magnitude >>> f.fractionWidth
    let fraction := magnitude % 1 <<< f.fractionWidth
    if exponent = 0 then .finite fraction f.lowest
    else .finite (1 <<< f.fractionWidth + fraction) (f.lowest + exponent - 1)
  else if magnitude = f.infinity then .infinite
  else .nan

/-- The magnitude nearest to `m * 2 ^ e`, of two the one that ends in an even bit. Adding one to a
magnitude steps to the next value also across a change of exponent, so a carry needs no care. -/
def write (m : Nat) (e : Int) : Nat :=
  if m = 0 then 0 else
    let place := Max.max f.lowest (e + m.log2 - f.fractionWidth)
    let cut := 1 <<< (place - e).toNat
    let quotient := m <<< (e - place).toNat / cut
    let rest := m <<< (e - place).toNat % cut
    let rounded := if 2 * rest > cut || (2 * rest == cut && quotient % 2 == 1)
      then quotient + 1 else quotient
    let field := (place - f.lowest).toNat <<< f.fractionWidth
    Min.min f.infinity (field + rounded)

end Format

end Binary

end Starfilm
