import Starfilm.Arith.Binary
import Starfilm.Arith.Elementary

/-!
# Double precision

A `Double` is its 64 bits, so that signs of zeros, and of values that are no number, are kept where
a value is only passed on. Sums, products and quotients are those of the machine. The two orders
and the way to the integers are read off the bits: a magnitude grows with the value it stands for,
so that `valueKey` orders the numbers and `placeKey` all patterns.
-/

namespace Starfilm

/-- A double precision number, as its bits. -/
structure Double where
  bits : UInt64
  deriving DecidableEq, Repr, Inhabited

namespace Double

/-- Eleven bits of exponent, fifty-two of fraction. -/
def format : Binary.Format := ⟨11, 52⟩

/-- The machine's number with these bits. -/
@[inline] def toFloat (x : Double) : Float := Float.ofBits x.bits

/-- The bits of a machine number. -/
@[inline] def ofFloat (x : Float) : Double := ⟨x.toBits⟩

def negative (x : Double) : Bool := x.bits >>> 63 != 0

/-- The bits without the sign. -/
def magnitude (x : Double) : Nat := (x.bits &&& 0x7FFFFFFFFFFFFFFF).toNat

/-- The value of the bits without the sign. -/
def read (x : Double) : Binary.Reading := format.read x.magnitude

def isNumber (x : Double) : Bool := x.magnitude ≤ 0x7FF0000000000000

/-- An integer that orders numbers as their values do. -/
def valueKey (x : Double) : Int := if x.negative then -(x.magnitude : Int) else x.magnitude

/-- An integer that orders all patterns: the negative ones by falling magnitude, then the others by
rising magnitude. -/
def placeKey (x : Double) : Int := if x.negative then -(x.magnitude : Int) - 1 else x.magnitude

/-- The number nearest to an integer. -/
def ofInt (i : Int) : Double :=
  if i.natAbs < 0x10000000000000000 then
    let size := i.natAbs.toUInt64.toFloat
    ofFloat (if i < 0 then -size else size)
  else ofFloat (Float.ofInt i)

/-- The number nearest to `m * 10 ^ e`. Beyond three hundred and fifty places nothing is left to
decide. -/
def ofScientific (m : Nat) (e : Int) : Double :=
  if m = 0 then ⟨0⟩
  else if e > 400 then ⟨0x7FF0000000000000⟩
  else if e + m.log2 < -400 then ⟨0⟩
  else ofFloat (OfScientific.ofScientific m (e < 0) e.natAbs)

def neg (x : Double) : Double := ⟨x.bits ^^^ 0x8000000000000000⟩

def toInt (r : Rounding) (lo hi : Int) (x : Double) : Int :=
  match x.read with
  | .nan => 0
  | .infinite => if x.negative then lo else hi
  | .finite m e => Max.max lo (Min.min hi (r.scaled x.negative m e))

instance : Arith Double where
  add a b := ofFloat (a.toFloat + b.toFloat)
  sub a b := ofFloat (a.toFloat - b.toFloat)
  mul a b := ofFloat (a.toFloat * b.toFloat)
  div a b := ofFloat (a.toFloat / b.toFloat)
  neg := neg
  ofInt := ofInt
  decimal m k := let x := ofScientific m.natAbs (-k); if m < 0 then x.neg else x
  magnitude x := ⟨x.bits &&& 0x7FFFFFFFFFFFFFFF⟩
  le a b := a.isNumber && b.isNumber && a.valueKey ≤ b.valueKey
  totalLe a b := a.placeKey ≤ b.placeKey
  isFinite x := x.magnitude < 0x7FF0000000000000
  toInt := toInt
  below x := ⟨x.bits - 1⟩

instance : Elementary Double where
  sin x := ofFloat x.toFloat.sin
  cos x := ofFloat x.toFloat.cos
  exp x := ofFloat x.toFloat.exp
  ln x := ofFloat x.toFloat.log
  sqrt x := ofFloat x.toFloat.sqrt
  pi := ⟨0x400921FB54442D18⟩

/-- Infinity. -/
def infinity : Double := ⟨0x7FF0000000000000⟩

/-- A value that is no number. -/
def nan : Double := ⟨0x7FF8000000000000⟩

end Double

end Starfilm
