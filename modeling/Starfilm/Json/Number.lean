import Starfilm.Json.Document
import Starfilm.Decimal.Read

/-!
# JSON numbers

A JSON number that is no integer of sixty-four bits is the number that its leading digits form, as
many as fit sixty-four bits, times one power of ten. The product is rounded, not the decimal: the
digits become an `F`, the power of ten becomes an `F`, and one multiplication or division joins
them. Powers beyond the three hundred and eighth are taken in steps.
-/

namespace Starfilm

namespace Json

namespace Number

open Decimal (digitValue)

/-- The largest significand. -/
def maxSignificand : Nat := 0xFFFFFFFFFFFFFFFF

/-- Digits that still fit are appended to the significand; the others are left over. -/
def takeDigits : Nat → List Char → Nat × List Char
  | n, [] => (n, [])
  | n, c :: cs =>
    if 10 * n + digitValue c ≤ maxSignificand then takeDigits (10 * n + digitValue c) cs
    else (n, c :: cs)

/-- The greatest power of ten taken in one step. -/
def maxPower : Nat := 308

/-- `x * 10 ^ e` in steps; `none` when it is not finite. -/
def scaled {F : Type} [Arith F] : Nat → F → Int → Option F
  | 0, x, _ => some x
  | fuel + 1, x, e =>
    if e.natAbs ≤ maxPower then
      let power : F := Arith.nat (Nat.pow 10 e.natAbs)
      if 0 ≤ e then
        let y := x * power
        if Arith.isFinite y then some y else none
      else some (x / power)
    else if Arith.eqv x (Arith.nat 0) then some x
    else if 0 ≤ e then none
    else scaled fuel (x / Arith.nat (Nat.pow 10 maxPower)) (e + maxPower)

/-- A number in writing: sign, digits before and after the point, exponent. -/
structure Parts where
  negative : Bool
  whole : List Char
  fraction : List Char
  exponent : Option Int
  deriving DecidableEq, Repr

/-- The number times a power of ten, as a value with its sign. -/
def Parts.real {F : Type} [Arith F] (p : Parts) : Option F :=
  let (n, excess) := takeDigits 0 p.whole
  let (m, rest) := takeDigits n p.fraction
  let e : Int := excess.length - (p.fraction.length - rest.length) + p.exponent.getD 0
  let x : Option F := scaled (e.natAbs / maxPower + 2) (Arith.nat m) e
  x.map fun x => if p.negative then -x else x

/-- The number as an integer, if it is written as one and fits. A zero with a minus sign is no
integer. -/
def Parts.int? (p : Parts) : Option Int :=
  if p.fraction.isEmpty && p.exponent.isNone then
    let n := Decimal.ofDigits p.whole
    if p.negative then (if 0 < n && n ≤ 0x8000000000000000 then some (-(n : Int)) else none)
    else if n ≤ maxSignificand then some n
    else none
  else none

/-- The document of a number. One that is too large can only be skipped. -/
def Parts.document {F : Type} [Arith F] (p : Parts) : Document F :=
  match p.int? with
  | some i => .int i
  | none =>
    match (p.real : Option F) with
    | some x => .real x
    | none => .broken .malformed none

end Number

end Json

end Starfilm
