import Starfilm.Arith.Double

/-!
# Numbers from arguments

`Decimal.scan` splits a numeral into sign, digits and exponent. A numeral has digits before or
after its point, and at least one after the `e` of an exponent. `Double.ofText?` reads numerals and
the words for infinity and for no number, in either case of letters; `Decimal.count?` reads counts
up to a limit.
-/

namespace Starfilm

namespace Decimal

/-- The value of a digit. -/
def digitValue (c : Char) : Nat := c.toNat - '0'.toNat

/-- The number a list of digits writes. -/
def ofDigits (ds : List Char) : Nat := ds.foldl (fun n c => 10 * n + digitValue c) 0

/-- A numeral without its sign: `digits * 10 ^ exponent`. -/
structure Numeral where
  digits : Nat
  exponent : Int
  deriving DecidableEq, Repr

/-- The exponent after the letter `e`: at least one digit, and nothing else. -/
def exponent? (cs : List Char) : Option Int :=
  let (negative, ds) :=
    match cs with
    | '+' :: rest => (false, rest)
    | '-' :: rest => (true, rest)
    | _ => (false, cs)
  if ds.isEmpty || !ds.all Char.isDigit then none
  else some (if negative then -(ofDigits ds : Int) else ofDigits ds)

/-- A numeral without sign. -/
def numeral? (cs : List Char) : Option Numeral :=
  let whole := cs.takeWhile Char.isDigit
  let rest := cs.dropWhile Char.isDigit
  let (part, rest) :=
    match rest with
    | '.' :: more => (more.takeWhile Char.isDigit, more.dropWhile Char.isDigit)
    | _ => ([], rest)
  if whole.isEmpty && part.isEmpty then none
  else
    let n := ofDigits (whole ++ part)
    match rest with
    | [] => some ⟨n, -part.length⟩
    | c :: more =>
      if c = 'e' || c = 'E' then (exponent? more).map fun e => ⟨n, e - part.length⟩
      else none

/-- The sign in front of a numeral, and what follows it. -/
def sign : List Char → Bool × List Char
  | '+' :: rest => (false, rest)
  | '-' :: rest => (true, rest)
  | cs => (false, cs)

/-- A count of at most `limit`, which a `+` may precede. -/
def count? (limit : Nat) (text : String) : Option Nat :=
  let ds :=
    match text.toList with
    | '+' :: rest => rest
    | cs => cs
  if ds.isEmpty || !ds.all Char.isDigit then none
  else
    let n := ofDigits ds
    if n ≤ limit then some n else none

end Decimal

/-- Numbers that can be read from an argument. -/
class DecimalReader (F : Type) where
  ofText? : String → Option F

namespace Double

/-- The magnitude that a text without sign names. -/
def magnitudeOf? (cs : List Char) : Option Double :=
  match Decimal.numeral? cs with
  | some n => some (ofScientific n.digits n.exponent)
  | none =>
    let word := cs.map Char.toLower
    if word = ['n', 'a', 'n'] then some nan
    else if word = ['i', 'n', 'f'] || word = ['i', 'n', 'f', 'i', 'n', 'i', 't', 'y'] then
      some infinity
    else none

/-- The number a text names: a numeral, an infinity or no number, each with an optional sign. -/
def ofText? (text : String) : Option Double :=
  let (negative, rest) := Decimal.sign text.toList
  (magnitudeOf? rest).map fun x => if negative then x.neg else x

instance : DecimalReader Double := ⟨ofText?⟩

end Double

end Starfilm
