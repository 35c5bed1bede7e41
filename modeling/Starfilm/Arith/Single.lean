import Starfilm.Arith.Double

/-!
# Single precision

Colours are blended in single precision. A `Single` is its 32 bits; the operations are those of
`Double`. `ofDouble` keeps the nearest single precision number and `toDouble` loses nothing.
-/

namespace Starfilm

/-- A single precision number, as its bits. -/
structure Single where
  bits : UInt32
  deriving DecidableEq, Repr, Inhabited

namespace Single

/-- Eight bits of exponent, twenty-three of fraction. -/
def format : Binary.Format := ⟨8, 23⟩

/-- The machine's number with these bits. -/
@[inline] def toFloat32 (x : Single) : Float32 := Float32.ofBits x.bits

/-- The bits of a machine number. -/
@[inline] def ofFloat32 (x : Float32) : Single := ⟨x.toBits⟩

def negative (x : Single) : Bool := x.bits >>> 31 != 0

/-- The bits without the sign. -/
def magnitude (x : Single) : Nat := (x.bits &&& 0x7FFFFFFF).toNat

/-- The value of the bits without the sign. -/
def read (x : Single) : Binary.Reading := format.read x.magnitude

def isNumber (x : Single) : Bool := x.magnitude ≤ 0x7F800000

/-- An integer that orders numbers as their values do. -/
def valueKey (x : Single) : Int := if x.negative then -(x.magnitude : Int) else x.magnitude

/-- An integer that orders all patterns. -/
def placeKey (x : Single) : Int := if x.negative then -(x.magnitude : Int) - 1 else x.magnitude

/-- The pattern with this sign and this magnitude. -/
def ofMagnitude (negative : Bool) (magnitude : Nat) : Single :=
  ⟨UInt32.ofNat (if negative then 0x80000000 + magnitude else magnitude)⟩

/-- The single precision number nearest to a double precision one. -/
def ofDouble (x : Double) : Single :=
  match x.read with
  | .finite m e => ofMagnitude x.negative (format.write m e)
  | .infinite => ofMagnitude x.negative format.infinity
  | .nan => ofMagnitude x.negative (format.infinity + 0x400000)

/-- The same value in double precision. -/
def toDouble (x : Single) : Double :=
  let magnitude :=
    match x.read with
    | .finite m e => Double.format.write m e
    | .infinite => Double.format.infinity
    | .nan => Double.format.infinity + 0x8000000000000
  ⟨UInt64.ofNat (if x.negative then 0x8000000000000000 + magnitude else magnitude)⟩

def neg (x : Single) : Single := ⟨x.bits ^^^ 0x80000000⟩

def toInt (r : Rounding) (lo hi : Int) (x : Single) : Int :=
  match x.read with
  | .nan => 0
  | .infinite => if x.negative then lo else hi
  | .finite m e => Max.max lo (Min.min hi (r.scaled x.negative m e))

/-- The number nearest to an integer. -/
def ofInt (i : Int) : Single := ofMagnitude (i < 0) (format.write i.natAbs 0)

instance : Arith Single where
  add a b := ofFloat32 (a.toFloat32 + b.toFloat32)
  sub a b := ofFloat32 (a.toFloat32 - b.toFloat32)
  mul a b := ofFloat32 (a.toFloat32 * b.toFloat32)
  div a b := ofFloat32 (a.toFloat32 / b.toFloat32)
  neg := neg
  ofInt := ofInt
  decimal m k :=
    let x := ofFloat32 (OfScientific.ofScientific m.natAbs true k)
    if m < 0 then x.neg else x
  magnitude x := ⟨x.bits &&& 0x7FFFFFFF⟩
  le a b := a.isNumber && b.isNumber && a.valueKey ≤ b.valueKey
  totalLe a b := a.placeKey ≤ b.placeKey
  isFinite x := x.magnitude < 0x7F800000
  toInt := toInt
  below x := ⟨x.bits - 1⟩

end Single

end Starfilm
