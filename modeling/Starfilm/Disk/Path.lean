/-!
# Paths

A path is a text in which slashes separate segments. Empty segments and segments `.` stand for
nothing, save a `.` that begins a relative path; what is left are the components. `fileName?`,
`parent?` and `extension?` look at the last component, and they leave the spelling of the others
alone: the parent of `a//b/c` is `a//b`.

Names are texts. A system may also have names that are no text in its encoding: they match no
pattern of names, so that no snapshot is read from them and no frame removed, and they are left out.
-/

namespace Starfilm

/-- The name of a file or directory. -/
abbrev Name := List Char

/-- A path, as it is spelled. -/
structure Path where
  chars : List Char
  deriving DecidableEq, Inhabited

namespace Path

def ofString (s : String) : Path := ⟨s.toList⟩

def text (p : Path) : String := String.ofList p.chars

/-- The pieces of a text between the separators `c`. There is always at least one. -/
def splitAt (c : Char) : List Char → List (List Char)
  | [] => [[]]
  | d :: ds =>
    if d = c then [] :: splitAt c ds
    else
      match splitAt c ds with
      | [] => [[d]]
      | s :: ss => (d :: s) :: ss

/-- The pieces of a path between slashes. -/
def segments (p : Path) : List Name := splitAt '/' p.chars

/-- The path with these segments. -/
def ofSegments (segments : List Name) : Path := ⟨List.intercalate ['/'] segments⟩

def isAbsolute (p : Path) : Bool := p.chars.head? == some '/'

/-- A segment that stands for nothing. -/
def isIdle (s : Name) : Bool := s = [] || s = ['.']

/-- Segments, last first, without the idle ones in front; one segment always stays. -/
def dropIdle : List Name → List Name
  | s :: t :: rest => if isIdle s then dropIdle (t :: rest) else s :: t :: rest
  | ss => ss

/-- The segments up to the last component, last first. -/
def reversed (p : Path) : List Name := dropIdle p.segments.reverse

/-- The last component, if it is a name. -/
def fileName? (p : Path) : Option Name :=
  match p.reversed with
  | s :: _ => if isIdle s || s = ['.', '.'] then none else some s
  | [] => none

/-- The path up to its last component. -/
def parent? (p : Path) : Option Path :=
  match p.reversed with
  | [] => none
  | [s] => if s = [] then none else some ⟨[]⟩
  | _ :: rest =>
    let rest := dropIdle rest
    some (if rest = [[]] then ⟨['/']⟩ else ofSegments rest.reverse)

/-- Whether a path is spelled like that of a directory. -/
def endsInSlash (p : Path) : Bool := p.chars.getLast? == some '/'

/-- The path without the slashes at its end, unless there is nothing else. -/
def trimmed (p : Path) : Path :=
  let kept := (p.segments.reverse.dropWhile (· = [])).reverse
  if kept = [] then p else ofSegments kept

/-- `q` seen from `p`. An absolute path is the same from everywhere. -/
def join (p q : Path) : Path :=
  if q.isAbsolute then q
  else if p.chars = [] || p.chars.getLast? = some '/' then ⟨p.chars ++ q.chars⟩
  else ⟨p.chars ++ '/' :: q.chars⟩

/-- A name split at its last point into stem and extension. A point at the very front belongs to the
stem. -/
def splitExtension (name : Name) : Name × Option Name :=
  let after := (name.reverse.takeWhile (· ≠ '.')).reverse
  let before := name.take (name.length - after.length - 1)
  if after.length = name.length || before = [] then (name, none) else (before, some after)

/-- The extension of the last component. -/
def extension? (p : Path) : Option Name := p.fileName?.bind fun n => (splitExtension n).2

/-- The path with another extension, or with a first one. A path without a file name stays. -/
def withExtension (p : Path) (extension : Name) : Path :=
  match p.fileName?, p.reversed with
  | some n, _ :: rest =>
    let stem := (splitExtension n).1
    let name := if extension = [] then stem else stem ++ '.' :: extension
    ofSegments (name :: rest).reverse
  | _, _ => p

end Path

/-- Names in the order of their characters. Since longer encodings of a character begin with greater
bytes, this is also the order of their bytes. -/
def Name.le : Name → Name → Bool
  | [], _ => true
  | _ :: _, [] => false
  | a :: as, b :: bs => if a = b then Name.le as bs else a.toNat < b.toNat

/-- The number of bytes of a text. -/
def byteLength (cs : List Char) : Nat := (cs.map fun c => c.utf8Size).foldl (· + ·) 0

end Starfilm
