import Starfilm.Arith.Double
import Starfilm.Decimal.Shortest

/-!
# Numbers in writing

`DecimalText` is what labels, tables and messages need: a number with as few digits as read back,
written out in full without an exponent (`shortest`), and a number with a given count of decimal
places, a half going to the even neighbour (`fixed`).
-/

namespace Starfilm

/-- Numbers that can be written in decimal. -/
class DecimalText (F : Type) where
  shortest : F → String
  fixed : Nat → F → String

namespace Decimal

/-- The digits of a natural number. -/
def digits (n : Nat) : List Char := (Nat.toDigits 10 n)

/-- Digits with a point that leaves `places` of them behind it; zeros fill up in front. -/
def pointed (places : Nat) (ds : List Char) : List Char :=
  if places = 0 then ds else
    let filled := List.replicate (places + 1 - ds.length) '0' ++ ds
    filled.take (filled.length - places) ++ '.' :: filled.drop (filled.length - places)

/-- `c * 10 ^ k` written out in full. -/
def positional (c : Nat) (k : Int) : List Char :=
  if 0 ≤ k then (if c = 0 then ['0'] else digits c ++ List.replicate k.toNat '0')
  else pointed (-k).toNat (digits c)

/-- The quotient nearest to `a / b`, of two the even one. -/
def nearestEven (a b : Nat) : Nat :=
  let q := a / b
  let r := a % b
  if 2 * r > b || (2 * r == b && q % 2 == 1) then q + 1 else q

/-- `m * 2 ^ e` with `places` decimal places. -/
def fixed (places m : Nat) (e : Int) : List Char :=
  pointed places (digits (nearestEven (m <<< e.toNat * Nat.pow 10 places) (1 <<< (-e).toNat)))

/-- A text with its sign. -/
def signed (negative : Bool) (text : List Char) : String :=
  String.ofList (if negative then '-' :: text else text)

end Decimal

namespace Double

/-- The shortest decimal `c * 10 ^ k` that reads back as `m * 2 ^ e`. -/
def shortestDecimal (m : Nat) (e : Int) : Nat × Int := format.shortest m e

instance : DecimalText Double where
  shortest x :=
    match x.read with
    | .nan => "NaN"
    | .infinite => Decimal.signed x.negative ['i', 'n', 'f']
    | .finite m e =>
      let (c, k) := shortestDecimal m e
      Decimal.signed x.negative (Decimal.positional c k)
  fixed places x :=
    match x.read with
    | .nan => "NaN"
    | .infinite => Decimal.signed x.negative ['i', 'n', 'f']
    | .finite m e => Decimal.signed x.negative (Decimal.fixed places m e)

end Double

end Starfilm
