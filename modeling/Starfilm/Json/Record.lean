import Starfilm.Json.Document

/-!
# Records in JSON

A record is written as an object with a member for each of its fields (`Field.writeAll`). It is read
from an object or from an array (`readRecord`), starting from a default that every field given
replaces in part: an object names its fields in any order, an array gives the first few of them in
order. Members of an object that name no field are skipped; a field named twice is a mismatch.
-/

namespace Starfilm

namespace Json

variable {F C : Type}

/-- A field of records `C`: how it is written, and the change that a document makes to it. -/
structure Field (F C : Type) where
  key : String
  write : C → Json F
  read : Document F → Except Fault (C → C)

/-- A record as an object. -/
def Field.writeAll (fields : List (Field F C)) (c : C) : Json F :=
  .object (fields.map fun f => (f.key, f.write c))

/-- The record after the changes that members make to `c`; `seen` are the keys of fields read
before. -/
def changeByMembers (fields : List (Field F C)) (stop : Option Fault) :
    List String → C → List (Except Fault String × Document F) → Except Fault C
  | _, c, [] => do
    stopAt stop
    .ok c
  | seen, c, (key, d) :: rest => do
    let key ← key
    match fields.find? fun f => f.key = key with
    | none =>
      d.skip
      changeByMembers fields stop seen c rest
    | some f =>
      if seen.contains key then .error .mismatched
      else
        let change ← f.read d
        changeByMembers fields stop (key :: seen) (change c) rest

/-- The record after the changes that items make to `c`, one for each field. Items beyond the last
field are no part of a record. -/
def changeByItems (stop : Option Fault) :
    List (Field F C) → C → List (Document F) → Except Fault C
  | _, c, [] => do
    stopAt stop
    .ok c
  | [], _, _ :: _ => .error .malformed
  | f :: fields, c, d :: rest => do
    let change ← f.read d
    changeByItems stop fields (change c) rest

/-- The record that a document makes of a default. -/
def readRecord (fields : List (Field F C)) (default : C) : Document F → Except Fault C
  | .object members stop => changeByMembers fields stop [] default members
  | .array items stop => changeByItems stop fields default items
  | .broken r _ => .error r
  | _ => .error .mismatched

/-! ## Fields of simple types -/

namespace Document

/-- The text of a string. -/
def text? : Document F → Except Fault String
  | .text s => .ok s
  | .broken r _ => .error r
  | _ => .error .mismatched

/-- A truth value. -/
def bool? : Document F → Except Fault Bool
  | .bool b => .ok b
  | .broken r _ => .error r
  | _ => .error .mismatched

/-- A number, which may be written as an integer. -/
def number? [Arith F] : Document F → Except Fault F
  | .int i => .ok (Arith.ofInt i)
  | .real x => .ok x
  | .broken r _ => .error r
  | _ => .error .mismatched

/-- A count of thirty-two bits. -/
def count? : Document F → Except Fault UInt32
  | .int i =>
    if 0 ≤ i && i ≤ maxCount then .ok (UInt32.ofNat i.toNat) else .error .mismatched
  | .broken r _ => .error r
  | _ => .error .mismatched

/-- Nothing for `null`, and otherwise what `read` makes of the document. -/
def optional {A : Type} (read : Document F → Except Fault A) : Document F → Except Fault (Option A)
  | .null => .ok none
  | d => (read d).map some

end Document

end Json

end Starfilm
