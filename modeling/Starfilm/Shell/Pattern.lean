/-!
# Patterns for lines

Basic regular expressions: characters, a point for any of them, sets in brackets, a star behind any
of these, and `^` and `$` for the ends of a line.
-/

namespace Starfilm

namespace Shell

/-- What one character may be. -/
inductive Atom where
  | char (c : Char)
  | any
  /-- One of some ranges, or none of them. -/
  | among (inside : Bool) (ranges : List (Char × Char))
  deriving DecidableEq, Repr

namespace Atom

def accepts : Atom → Char → Bool
  | char d, c => c = d
  | any, _ => true
  | among inside ranges, c => ranges.any (fun r => r.1 ≤ c && c ≤ r.2) == inside

end Atom

/-- A pattern: atoms, each once or any number of times, and whether the ends of the line are the
ends of the match. -/
structure Pattern where
  atStart : Bool
  atoms : List (Atom × Bool)
  atEnd : Bool
  deriving DecidableEq, Repr

namespace Pattern

/-- The ranges of a set in brackets, up to its end. -/
def ranges : List Char → List (Char × Char)
  | [] => []
  | [a] => [(a, a)]
  | a :: '-' :: b :: rest => (a, b) :: ranges rest
  | a :: rest => (a, a) :: ranges rest

/-- The atoms of a pattern, and whether it is bound to the end. -/
def scan : Nat → List Char → List (Atom × Bool) × Bool
  | 0, _ => ([], false)
  | n + 1, cs =>
    let starred (a : Atom) (rest : List Char) : List (Atom × Bool) × Bool :=
      match rest with
      | '*' :: rest =>
        let (atoms, e) := scan n rest
        ((a, true) :: atoms, e)
      | _ =>
        let (atoms, e) := scan n rest
        ((a, false) :: atoms, e)
    match cs with
    | [] => ([], false)
    | ['$'] => ([], true)
    | '.' :: rest => starred .any rest
    | '\\' :: c :: rest => starred (.char c) rest
    | '[' :: '^' :: c :: rest =>
      starred (.among false (ranges (c :: rest.takeWhile (· ≠ ']'))))
        ((rest.dropWhile (· ≠ ']')).drop 1)
    | '[' :: c :: rest =>
      starred (.among true (ranges (c :: rest.takeWhile (· ≠ ']'))))
        ((rest.dropWhile (· ≠ ']')).drop 1)
    | c :: rest => starred (.char c) rest

/-- The pattern that a text writes. -/
def ofChars (cs : List Char) : Pattern :=
  let (atStart, rest) :=
    match cs with
    | '^' :: rest => (true, rest)
    | _ => (false, cs)
  let (atoms, atEnd) := scan (rest.length + 1) rest
  ⟨atStart, atoms, atEnd⟩

/-- Whether atoms match characters at the front of a line. The count is larger than the number of
atoms and characters together. -/
def frontMatches (atEnd : Bool) : Nat → List (Atom × Bool) → List Char → Bool
  | 0, _, _ => false
  | _ + 1, [], cs => !atEnd || cs.isEmpty
  | n + 1, (a, true) :: rest, cs =>
    frontMatches atEnd n rest cs ||
      match cs with
      | c :: more => a.accepts c && frontMatches atEnd n ((a, true) :: rest) more
      | [] => false
  | n + 1, (a, false) :: rest, cs =>
    match cs with
    | c :: more => a.accepts c && frontMatches atEnd n rest more
    | [] => false

/-- Whether a pattern matches somewhere in a line. -/
def matchesLine (p : Pattern) (line : List Char) : Bool :=
  let n := p.atoms.length + line.length + 1
  if p.atStart then frontMatches p.atEnd n p.atoms line
  else (List.range (line.length + 1)).any fun k => frontMatches p.atEnd n p.atoms (line.drop k)

end Pattern

end Shell

end Starfilm
