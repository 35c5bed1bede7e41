import Starfilm.Disk.Fault
import Starfilm.Disk.Path
import Starfilm.Raster.Animation

/-!
# The disk

A disk is a list of places with what is there: directories, files and two devices. Its order is the
one in which directories list their entries, and nothing else depends on it. A path leads from the
working directory, or from the root, through directories to a place that may be empty
(`Disk.resolve`). Looking does not change a disk; an operation that changes it gives the new disk or
a fault, so that a failed operation leaves no trace.

There are no links between places, so that a place has one way to it, and of permissions there is
only whether a file can be run: nothing is refused for lack of a right to read or to write.
-/

namespace Starfilm

/-- What a file holds. Pictures are kept as such; their encoding is nobody's concern. -/
inductive Content where
  | text (s : String)
  /-- Bytes that are no text. -/
  | bytes (bs : List UInt8)
  | picture (i : Image)
  | animation (a : Animation)
  deriving DecidableEq, Inhabited

/-- A place in the tree of directories: names from the innermost outwards. -/
abbrev Place := List Name

/-- What is in a place. -/
inductive Node where
  | directory
  | file (content : Content) (executable : Bool)
  /-- A device on which there is never any space. -/
  | fullDevice
  /-- A device that forgets what is written to it. -/
  | nullDevice
  deriving DecidableEq

/-- A tree of directories, and the working directory. -/
structure Disk where
  entries : List (Place × Node)
  here : Place

namespace Disk

/-- What is in a place. -/
def node? (d : Disk) (p : Place) : Option Node := (d.entries.find? fun e => e.1 = p).map (·.2)

/-- The disk with a node put in a place: in the stead of the old one, or as the newest. -/
def put (d : Disk) (p : Place) (n : Node) : Disk :=
  if (d.node? p).isSome then
    { d with entries := d.entries.map fun e => if e.1 = p then (p, n) else e }
  else { d with entries := d.entries ++ [(p, n)] }

/-- The disk without what is in a place. -/
def erase (d : Disk) (p : Place) : Disk := { d with entries := d.entries.filter fun e => e.1 ≠ p }

/-- The names in a directory, in the order of the list. -/
def children (d : Disk) (p : Place) : List Name :=
  d.entries.filterMap fun e =>
    match e.1 with
    | name :: q => if q = p then some name else none
    | [] => none

/-! ## From paths to places -/

/-- Names have at most this many bytes. -/
def maxNameLength : Nat := 255

/-- One segment further. -/
def step (p : Place) (s : Name) : Place :=
  if Path.isIdle s then p else if s = ['.', '.'] then p.tail else s :: p

/-- The place that some segments lead to. Each of them starts from a directory. -/
def walk (d : Disk) : Place → List Name → Except Fault Place
  | p, [] => .ok p
  | p, s :: rest =>
    match d.node? p with
    | none => .error .notFound
    | some .directory =>
      if maxNameLength < byteLength s then .error .nameTooLong else d.walk (step p s) rest
    | some _ => .error .notDirectory

/-- The place of a path. -/
def resolve (d : Disk) (p : Path) : Except Fault Place :=
  if p.chars.contains '\x00' then .error .badName
  else if p.chars = [] then .error .notFound
  else d.walk (if p.isAbsolute then [] else d.here) p.segments

/-- What a path leads to. -/
def find (d : Disk) (p : Path) : Except Fault (Place × Node) := do
  let place ← d.resolve p
  match d.node? place with
  | some n => .ok (place, n)
  | none => .error .notFound

/-! ## Looking -/

def isFile (d : Disk) (p : Path) : Bool :=
  match d.find p with
  | .ok (_, .file _ _) => true
  | _ => false

def isDirectory (d : Disk) (p : Path) : Bool :=
  match d.find p with
  | .ok (_, .directory) => true
  | _ => false

/-- What the file of a path holds. -/
def content (d : Disk) (p : Path) : Except Fault Content := do
  match (← d.find p).2 with
  | .file c _ => .ok c
  | .directory => .error .isDirectory
  | .fullDevice | .nullDevice => .ok (.text "")

/-- The text in the file of a path. -/
def readText (d : Disk) (p : Path) : Except Fault String := do
  match ← d.content p with
  | .text s => .ok s
  | _ => .error .notText

/-- The names in the directory of a path. -/
def list (d : Disk) (p : Path) : Except Fault (List Name) := do
  match ← d.find p with
  | (place, .directory) => .ok (d.children place)
  | _ => .error .notDirectory

/-! ## Changing -/

/-- The disk with a file written. A file that was there keeps its place and its mode. -/
def write (d : Disk) (p : Path) (c : Content) : Except Fault Disk := do
  let place ← d.resolve p.trimmed
  if p.endsInSlash then .error .isDirectory
  else
    match d.node? place with
    | none => .ok (d.put place (.file c false))
    | some (.file _ executable) => .ok (d.put place (.file c executable))
    | some .directory => .error .isDirectory
    | some .fullDevice => if c = .text "" then .ok d else .error .full
    | some .nullDevice => .ok d

/-- The disk with a directory made. -/
def createDirectory (d : Disk) (p : Path) : Except Fault Disk := do
  let place ← d.resolve p.trimmed
  match d.node? place with
  | none => .ok (d.put place .directory)
  | some _ => .error .exists

/-- The disk with a directory made where there was none, its parents first. What has been made
stays, even if the rest cannot be made. The count bounds the parents. -/
def createDirectoriesIn : Nat → Path → Disk → Except Fault Unit × Disk
  | 0, _, d => (.error .notFound, d)
  | n + 1, p, d =>
    if p.chars = [] then (.ok (), d)
    else
      let settle (f : Fault) (d : Disk) : Except Fault Unit × Disk :=
        if d.isDirectory p then (.ok (), d) else (.error f, d)
      match d.createDirectory p with
      | .ok d => (.ok (), d)
      | .error .notFound =>
        match p.parent? with
        | none => (.error .notFound, d)
        | some q =>
          match createDirectoriesIn n q d with
          | (.error f, d) => (.error f, d)
          | (.ok (), d) =>
            match d.createDirectory p with
            | .ok d => (.ok (), d)
            | .error f => settle f d
      | .error f => settle f d

/-- See `createDirectoriesIn`: each parent is shorter than its path. -/
def createDirectories (p : Path) (d : Disk) : Except Fault Unit × Disk :=
  createDirectoriesIn (p.chars.length + 1) p d

/-- The disk without a file. -/
def removeFile (d : Disk) (p : Path) : Except Fault Disk := do
  match ← d.find p with
  | (_, .directory) => .error .isDirectory
  | (place, _) => .ok (d.erase place)

/-- Whether a place is another one or within it. -/
def isWithin (outer : Place) (p : Place) : Bool := outer.isSuffixOf p

/-- The disk without what is in a place and within it. -/
def eraseTree (d : Disk) (p : Place) : Disk :=
  { d with entries := d.entries.filter fun e => !isWithin p e.1 }

/-! ## A new disk -/

/-- A disk with an empty working directory and the devices. -/
def empty : Disk where
  entries := [([], .directory), ([['d', 'e', 'v']], .directory),
    ([['f', 'u', 'l', 'l'], ['d', 'e', 'v']], .fullDevice),
    ([['n', 'u', 'l', 'l'], ['d', 'e', 'v']], .nullDevice),
    ([['h', 'o', 'm', 'e']], .directory),
    ([['w', 'o', 'r', 'k'], ['h', 'o', 'm', 'e']], .directory)]
  here := [['w', 'o', 'r', 'k'], ['h', 'o', 'm', 'e']]

end Disk

end Starfilm
