import Starfilm.Arith

/-!
# JSON values

A JSON number is an integer when it is written as one and fits sixty-four bits, and otherwise a
number of the type `F`. An object is the list of its members in order; `get?` finds a member by
its key.
-/

namespace Starfilm

/-- JSON values. -/
inductive Json (F : Type) where
  | null
  | bool (b : Bool)
  | int (i : Int)
  | real (x : F)
  | text (s : String)
  | array (items : List (Json F))
  | object (members : List (String × Json F))
  deriving Inhabited

namespace Json

variable {F : Type}

/-- The member of an object with a given key. -/
def get? (key : String) : Json F → Option (Json F)
  | object members => (members.find? fun m => m.1 = key).map (·.2)
  | _ => none

/-- The items of an array. -/
def items? : Json F → Option (List (Json F))
  | array items => some items
  | _ => none

/-- The text of a string. -/
def text? : Json F → Option String
  | text s => some s
  | _ => none

/-- The value of a number. -/
def number? [Arith F] : Json F → Option F
  | int i => some (Arith.ofInt i)
  | real x => some x
  | _ => none

/-- A number as a value; what is not finite has no JSON number and becomes `null`. -/
def ofNumber [Arith F] (x : F) : Json F := if Arith.isFinite x then real x else null

end Json

end Starfilm
