import Starfilm.Decimal.Text
import Starfilm.Json.Value

/-!
# Writing JSON

`Json.print` writes a value without any blanks. Numbers are written out in full with the fewest
digits that read back, and a whole one that is no integer keeps a point and a zero, so that it is
read as what it was.
-/

namespace Starfilm

namespace Json

/-- The digits of a byte, in base sixteen. -/
def hexByte (n : Nat) : List Char := [Nat.digitChar (n / 16), Nat.digitChar (n % 16)]

/-- A character inside a string. -/
def escape : Char → List Char
  | '"' => ['\\', '"']
  | '\\' => ['\\', '\\']
  | '\x08' => ['\\', 'b']
  | '\x0c' => ['\\', 'f']
  | '\n' => ['\\', 'n']
  | '\r' => ['\\', 'r']
  | '\t' => ['\\', 't']
  | c => if c.toNat < 0x20 then '\\' :: 'u' :: '0' :: '0' :: hexByte c.toNat else [c]

/-- A text between quotes. -/
def quoted (s : String) : String := "\"" ++ String.ofList (s.toList.flatMap escape) ++ "\""

/-- A number with a point. -/
def printReal {F : Type} [DecimalText F] (x : F) : String :=
  let s := DecimalText.shortest x
  if s.toList.contains '.' then s else s ++ ".0"

mutual

/-- The text of a value. -/
def print {F : Type} [DecimalText F] : Json F → String
  | null => "null"
  | bool true => "true"
  | bool false => "false"
  | int i => toString i
  | real x => printReal x
  | text s => quoted s
  | array items => "[" ++ ",".intercalate (printItems items) ++ "]"
  | object members => "\x7b" ++ ",".intercalate (printMembers members) ++ "\x7d"

/-- The texts of some values. -/
def printItems {F : Type} [DecimalText F] : List (Json F) → List String
  | [] => []
  | v :: vs => print v :: printItems vs

/-- The texts of some members. -/
def printMembers {F : Type} [DecimalText F] : List (String × Json F) → List String
  | [] => []
  | (k, v) :: vs => (quoted k ++ ":" ++ print v) :: printMembers vs

end

end Json

end Starfilm
