import Starfilm.Json.Value

/-!
# JSON as far as it can be read

A text may stop being JSON somewhere, and what a reader reports depends on what it has read until
then: the wrong type of an early member counts before a missing brace further on. A `Document` is
the tree of a text together with the places where reading stops, so that decoding can walk it from
left to right and report the first fault it meets.

Two readers meet different faults. One takes a value (`Document.value`); the other skips it
(`Document.skip`), as one does with members nobody asked for, and is content with less: it forgives
numbers that are too large and escapes that form no character. In a text containers can be taken
only so deep, and skipped at any depth (`Document.within`).
-/

namespace Starfilm

namespace Json

/-- Why a text is not the JSON that was asked for. -/
inductive Fault where
  /-- It is not JSON. -/
  | malformed
  /-- It ends too early. -/
  | truncated
  /-- It is JSON of another type or shape. -/
  | mismatched
  deriving DecidableEq, Repr

/-- Containers may be nested this deep in a text where their content is taken. -/
def maxDepth : Nat := 127

/-- A JSON text as far as it can be read. -/
inductive Document (F : Type) where
  | null
  | bool (b : Bool)
  | int (i : Int)
  | real (x : F)
  | text (s : String)
  /-- The items read, and the fault that took the place of a comma or the closing bracket. After a
  comma there is always an item. -/
  | array (items : List (Document F)) (stop : Option Fault)
  /-- The members read, and the fault that took the place of a key, a comma or the closing brace.
  A key may itself be unreadable. -/
  | object (members : List (Except Fault String × Document F)) (stop : Option Fault)
  /-- What takes the place of a value that cannot be read, and whether it can be skipped. -/
  | broken (read : Fault) (skip : Option Fault)
  deriving Inhabited

/-- Nothing, or the fault. -/
def stopAt : Option Fault → Except Fault Unit
  | none => .ok ()
  | some f => .error f

namespace Document

variable {F : Type}

mutual

/-- The first fault of one who skips the value. -/
def skip : Document F → Except Fault Unit
  | .array items stop => do skipItems items; stopAt stop
  | .object members stop => do skipMembers members; stopAt stop
  | .broken _ s => stopAt s
  | _ => .ok ()

/-- See `skip`. -/
def skipItems : List (Document F) → Except Fault Unit
  | [] => .ok ()
  | d :: ds => do skip d; skipItems ds

/-- See `skip`. -/
def skipMembers : List (Except Fault String × Document F) → Except Fault Unit
  | [] => .ok ()
  | (_, d) :: ds => do skip d; skipMembers ds

end

/-- A container that can only be skipped, with what comes of that. -/
def tooDeep (skipped : Except Fault Unit) : Document F :=
  .broken .malformed (match skipped with | .ok () => none | .error f => some f)

mutual

/-- The document inside `depth` containers, where those that are nested too deep cannot be taken any
more. -/
def within (depth : Nat) : Document F → Document F
  | .array items stop =>
    if depth < maxDepth then .array (withinItems (depth + 1) items) stop
    else tooDeep (skip (.array items stop))
  | .object members stop =>
    if depth < maxDepth then .object (withinMembers (depth + 1) members) stop
    else tooDeep (skip (.object members stop))
  | d => d

/-- See `within`. -/
def withinItems (depth : Nat) : List (Document F) → List (Document F)
  | [] => []
  | d :: ds => within depth d :: withinItems depth ds

/-- See `within`. -/
def withinMembers (depth : Nat) :
    List (Except Fault String × Document F) → List (Except Fault String × Document F)
  | [] => []
  | (k, d) :: ds => (k, within depth d) :: withinMembers depth ds

end

mutual

/-- The value. -/
def value : Document F → Except Fault (Json F)
  | .null => .ok .null
  | .bool b => .ok (.bool b)
  | .int i => .ok (.int i)
  | .real x => .ok (.real x)
  | .text s => .ok (.text s)
  | .broken r _ => .error r
  | .array items stop => do
    let items ← valueItems items
    stopAt stop
    .ok (.array items)
  | .object members stop => do
    let members ← valueMembers members
    stopAt stop
    .ok (.object members)

/-- See `value`. -/
def valueItems : List (Document F) → Except Fault (List (Json F))
  | [] => .ok []
  | d :: ds => do
    let v ← value d
    let vs ← valueItems ds
    .ok (v :: vs)

/-- See `value`. -/
def valueMembers :
    List (Except Fault String × Document F) → Except Fault (List (String × Json F))
  | [] => .ok []
  | (k, d) :: ds => do
    let k ← k
    let v ← value d
    let vs ← valueMembers ds
    .ok ((k, v) :: vs)

end

mutual

/-- A value as a document: nothing stops the reading. -/
def ofJson : Json F → Document F
  | .null => .null
  | .bool b => .bool b
  | .int i => .int i
  | .real x => .real x
  | .text s => .text s
  | .array items => .array (ofItems items) none
  | .object members => .object (ofMembers members) none

/-- See `ofJson`. -/
def ofItems : List (Json F) → List (Document F)
  | [] => []
  | v :: vs => ofJson v :: ofItems vs

/-- See `ofJson`. -/
def ofMembers : List (String × Json F) → List (Except Fault String × Document F)
  | [] => []
  | (k, v) :: vs => (.ok k, ofJson v) :: ofMembers vs

end

end Document

mutual

/-- The value with one member for each key of an object, the last one given. -/
def settled {F : Type} : Json F → Json F
  | .array items => .array (settledItems items)
  | .object members => .object (settledMembers members)
  | v => v

/-- See `settled`. -/
def settledItems {F : Type} : List (Json F) → List (Json F)
  | [] => []
  | v :: vs => settled v :: settledItems vs

/-- See `settled`. -/
def settledMembers {F : Type} : List (String × Json F) → List (String × Json F)
  | [] => []
  | (k, v) :: vs =>
    let rest := settledMembers vs
    if rest.any (fun m => m.1 = k) then rest else (k, settled v) :: rest

end

end Json

end Starfilm
