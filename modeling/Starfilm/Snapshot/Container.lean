import Starfilm.Decimal.Read
import Starfilm.Json.Text
import Starfilm.Snapshot.Discovery

/-!
# Snapshot files

A snapshot file is a tree. Its groups have attributes and links to further nodes, and its data sets
have a shape and values, row by row. On disk the tree is JSON: a data set is an object with a
`shape`, any other object is a group, and everything else is a name that leads to nothing.

`Container.snapshot` reads a snapshot from the links of the topmost group. The header must have a
time. A class whose group is missing has no particles; one whose group is there must have its
coordinates, in rows of three unless there are none, and new stars also a mass and a time of
formation for each position. The first rule that is broken, in this order, is the one reported.
-/

namespace Starfilm

/-- What a link of a container leads to. -/
inductive Container (F : Type) where
  /-- Named attributes, or `none` if they cannot be listed; an attribute has no value if it is not
  a single number. -/
  | group (attributes : Option (List (String × Option F))) (links : List (String × Container F))
  /-- A shape, and the values if they can be read. -/
  | dataset (shape : List Nat) (values : Option (List F))
  | nothing
  deriving Inhabited

namespace Container

variable {F : Type}

/-! ## From JSON -/

/-- A number, or a text that writes one. -/
def value? [Arith F] [DecimalReader F] : Json F → Option F
  | .text s => DecimalReader.ofText? s
  | v => v.number?

/-- A number of entries. -/
def entries : Json F → Nat
  | .int i => i.toNat
  | _ => 0

/-- The attributes of a group with these members. -/
def attributesOf [Arith F] [DecimalReader F] (group : Json F) :
    Option (List (String × Option F)) :=
  match group.get? "attrs" with
  | none => some []
  | some (.object members) => some (members.map fun m => (m.1, value? m.2))
  | some _ => none

/-- The values of a data set. -/
def valuesOf [Arith F] [DecimalReader F] (dataset : Json F) : Option (List F) := do
  let items ← (← dataset.get? "data").items?
  items.mapM value?

mutual

/-- The node that a value stands for. -/
def ofJson [Arith F] [DecimalReader F] : Json F → Container F
  | .object members =>
    match Json.get? "shape" (.object members) with
    | some shape =>
      .dataset ((shape.items?.getD []).map entries) (valuesOf (.object members))
    | none => .group (attributesOf (.object members)) (linksOf members)
  | _ => .nothing

/-- The links among the members of a group. -/
def linksOf [Arith F] [DecimalReader F] : List (String × Json F) → List (String × Container F)
  | [] => []
  | (key, .object members) :: rest => if key = "links" then nodesOf members else linksOf rest
  | _ :: rest => linksOf rest

/-- The nodes of some members. -/
def nodesOf [Arith F] [DecimalReader F] : List (String × Json F) → List (String × Container F)
  | [] => []
  | (key, v) :: rest => (key, ofJson v) :: nodesOf rest

end

/-- The links of the topmost group in a file. -/
def openFile [Arith F] [DecimalReader F] (d : Disk) (path : Path) :
    Except Failure (List (String × Container F)) :=
  match d.readText path with
  | .error f => .error (.container path f.message)
  | .ok text =>
    match (Json.parse text : Except Json.Fault (Json F)) with
    | .ok (.object members) => .ok (linksOf members)
    | _ => .error (.container path "not a container")

/-! ## Opening nodes -/

/-- A node by its name. -/
def link? (links : List (String × Container F)) (name : String) : Option (Container F) :=
  (links.find? fun l => l.1 = name).map (·.2)

/-- The attributes and links of a group. -/
def openGroup (path : Path) (links : List (String × Container F)) (name : String) :
    Except Failure (Option (List (String × Option F)) × List (String × Container F)) :=
  match link? links name with
  | some (.group attributes links) => .ok (attributes, links)
  | _ => .error (.container path s!"no group {name}")

/-- The shape and the values of a data set. -/
def openDataset (path : Path) (links : List (String × Container F)) (name : String) :
    Except Failure (List Nat × Option (List F)) :=
  match link? links name with
  | some (.dataset shape values) => .ok (shape, values)
  | _ => .error (.container path s!"no data set {name}")

/-- The values of a data set. -/
def readValues (path : Path) (name : String) : Option (List F) → Except Failure (List F)
  | some values => .ok values
  | none => .error (.container path s!"no values in {name}")

/-! ## Reading a snapshot -/

def headerName : String := "Header"

def timeName : String := "Time"

def coordinatesName : String := "Coordinates"

def massesName : String := "Masses"

def formationTimesName : String := "StellarFormationTime"

/-- The time in the header. -/
def time (path : Path) (links : List (String × Container F)) : Except Failure F := do
  let missing : Except Failure F := .error (.missingField path s!"{headerName}/{timeName}")
  if (link? links headerName).isNone then missing
  else
    let (attributes, _) ← openGroup path links headerName
    match attributes with
    | none => .error (.container path "the attributes cannot be listed")
    | some attributes =>
      match attributes.find? fun a => a.1 = timeName with
      | none => missing
      | some (_, none) => .error (.container path "the time is no number")
      | some (_, some t) => .ok t

/-- A shape in writing. -/
def shapeText (shape : List Nat) : String := "[" ++ ", ".intercalate (shape.map toString) ++ "]"

/-- Values in rows of three; what is left at the end makes no row. -/
def rows : List F → List (Position F)
  | x :: y :: z :: rest => ⟨x, y, z⟩ :: rows rest
  | _ => []

/-- The number of entries of a shape, as a machine word. -/
def entryCount (shape : List Nat) : UInt64 := shape.foldl (fun n k => n * UInt64.ofNat k) 1

/-- Whether a shape is one of positions: rows of three, or nothing at all. -/
def isPositionShape (shape : List Nat) : Bool :=
  entryCount shape == 0 || (shape.length == 2 && shape[1]? == some 3)

/-- The positions in a class's group. -/
def positions (path : Path) (c : ParticleClass) (links : List (String × Container F)) :
    Except Failure (List (Position F)) := do
  let (shape, values) ← openDataset path links coordinatesName
  if isPositionShape shape then
    let values ← readValues path coordinatesName values
    .ok (rows values)
  else
    .error (.malformedData path
      s!"/{c.groupName}/{coordinatesName} has shape {shapeText shape}, expected N x 3")

/-- The links of a class's group, if the class is there. -/
def classGroup (path : Path) (c : ParticleClass) (links : List (String × Container F)) :
    Except Failure (Option (List (String × Container F))) :=
  if (link? links c.groupName).isNone then .ok none
  else (openGroup path links c.groupName).map fun g => some g.2

/-- The positions of a class. -/
def classPositions (path : Path) (c : ParticleClass) (links : List (String × Container F)) :
    Except Failure (List (Position F)) := do
  match ← classGroup path c links with
  | some inner => positions path c inner
  | none => .ok []

/-- All values of a data set, whatever its shape. -/
def column (path : Path) (links : List (String × Container F)) (name : String) :
    Except Failure (List F) := do
  let (_, values) ← openDataset path links name
  readValues path name values

/-- Whether a column has an entry for each position. -/
def checkLength (path : Path) (name : String) (length expected : Nat) : Except Failure Unit :=
  if length = expected then .ok ()
  else .error (.malformedData path s!"{name} has {length} entries for {expected} positions")

/-- The newly formed stars. -/
def newStars (path : Path) (links : List (String × Container F)) : Except Failure (NewStars F) := do
  match ← classGroup path .newStars links with
  | none => .ok .empty
  | some inner =>
    let ps ← positions path .newStars inner
    let masses ← column path inner massesName
    let times ← column path inner formationTimesName
    checkLength path massesName masses.length ps.length
    checkLength path formationTimesName times.length ps.length
    NewStars.ofColumns ps masses times

/-- The snapshot with these links, read from `path`. -/
def snapshot (path : Path) (links : List (String × Container F)) : Except Failure (Snapshot F) := do
  let t ← time path links
  let disk ← classPositions path .disk links
  let bulge ← classPositions path .bulge links
  let stars ← newStars path links
  .ok ⟨some path, t, disk, bulge, stars⟩

/-- Reads the container in a file. -/
def reader [Arith F] [DecimalReader F] : Reader F := fun d path => do
  let links ← openFile d path
  snapshot path links

end Container

end Starfilm
