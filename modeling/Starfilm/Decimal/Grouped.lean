import Starfilm.Decimal.Text

/-!
# Thousands

Counts are written with a comma between groups of three digits, `1,234,567`. A comma stands before
every digit that has a positive multiple of three digits from itself to the end; `grouped` decides
this from the left, digit by digit.
-/

namespace Starfilm

namespace Decimal

/-- Commas between the digits `ds`; the first digit, which no comma precedes, is already out. -/
def groupTail : List Char → List Char
  | [] => []
  | d :: ds => if (d :: ds).length % 3 = 0 then ',' :: d :: groupTail ds else d :: groupTail ds

/-- Digits in groups of three, counted from the end. -/
def group : List Char → List Char
  | [] => []
  | d :: ds => d :: groupTail ds

/-- A count with commas between the groups of three digits. -/
def grouped (n : Nat) : String := String.ofList (group (digits n))

end Decimal

end Starfilm
