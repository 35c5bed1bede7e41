import Starfilm.Shell.Script

/-!
# Reading scripts

The parser takes characters from the front of a text and gives back what is left. `none` means that
the text is no script. Every call takes a character or calls a parser that does; the count that is
passed along is a multiple of the length of the text and bounds the depth of these calls.
-/

namespace Starfilm

namespace Shell

/-- Characters that end a word. -/
def isMeta (c : Char) : Bool :=
  c = ' ' || c = '\t' || c = '\n' || c = ';' || c = '&' || c = '|' || c = '<' || c = '>' ||
    c = '(' || c = ')'

/-- Characters of the names of variables. -/
def isNameChar (c : Char) : Bool := c.isAlphanum || c = '_'

/-- Parameters whose name is one sign. -/
def isSpecial (c : Char) : Bool :=
  c = '@' || c = '*' || c = '#' || c = '?' || c = '$' || c = '!' || c = '-' || c.isDigit

/-- The text after blanks within a line, and after a comment. -/
def skipSpace : List Char → List Char
  | ' ' :: cs => skipSpace cs
  | '\t' :: cs => skipSpace cs
  | '\\' :: '\n' :: cs => skipSpace cs
  | '#' :: cs => cs.dropWhile (· ≠ '\n')
  | cs => cs

/-- The text after blank lines as well. -/
def skipLines : Nat → List Char → List Char
  | 0, cs => cs
  | n + 1, cs =>
    match skipSpace cs with
    | '\n' :: rest => skipLines n rest
    | ';' :: rest => skipLines n rest
    | rest => rest

/-- Words that are no commands but end or divide one. -/
def closers : List String := ["then", "elif", "else", "fi", "do", "done", "\x7d"]

/-- The name at the front of a text, up to the end of the word. -/
def frontWord (cs : List Char) : String := String.ofList (cs.takeWhile fun c => !isMeta c)

/-- The text after a given word, if it begins with that. -/
def keyword? (w : String) (cs : List Char) : Option (List Char) :=
  let cs := skipSpace cs
  if frontWord cs = w then some (cs.drop w.length) else none

/-- A number at the front of a redirection, and the redirection. -/
def direction? (cs : List Char) : Option (Nat × Direction × List Char) :=
  let ds := cs.takeWhile Char.isDigit
  let n := ds.foldl (fun n c => 10 * n + (c.toNat - '0'.toNat)) 0
  match cs.dropWhile Char.isDigit with
  | '>' :: '&' :: rest => some (if ds.isEmpty then 1 else n, .along, rest)
  | '>' :: '>' :: rest => some (if ds.isEmpty then 1 else n, .behind, rest)
  | '>' :: rest => some (if ds.isEmpty then 1 else n, .over, rest)
  | '<' :: rest => some (if ds.isEmpty then 0 else n, .from, rest)
  | _ => none

mutual

/-- The piece after a dollar sign. -/
def dollar : Nat → Bool → List Char → Option (Piece × List Char)
  | 0, _, _ => none
  | n + 1, quoted, cs =>
    match cs with
    | '(' :: rest => do
      let (c, rest) ← commands n rest
      match skipLines n rest with
      | ')' :: rest => some (.output c quoted, rest)
      | _ => none
    | '\x7b' :: rest =>
      match rest.dropWhile (· ≠ '\x7d') with
      | _ :: after => some (.parameter (rest.takeWhile (· ≠ '\x7d')) quoted, after)
      | [] => none
    | c :: rest =>
      if isSpecial c then some (.parameter [c] quoted, rest)
      else if isNameChar c then
        some (.parameter (cs.takeWhile isNameChar) quoted, cs.dropWhile isNameChar)
      else some (.literal ['$'] quoted, cs)
    | [] => some (.literal ['$'] quoted, [])

/-- The pieces between two double quotes, after the first. -/
def quotedPieces : Nat → List Char → Option (List Piece × List Char)
  | 0, _ => none
  | n + 1, cs =>
    match cs with
    | [] => none
    | '"' :: rest => some ([.literal [] true], rest)
    | '\\' :: c :: rest => do
      let (ps, rest) ← quotedPieces n rest
      if c = '$' || c = '"' || c = '\\' || c.toNat = 96 then some (.literal [c] true :: ps, rest)
      else if c = '\n' then some (ps, rest)
      else some (.literal ['\\', c] true :: ps, rest)
    | '$' :: rest => do
      let (p, rest) ← dollar n true rest
      let (ps, rest) ← quotedPieces n rest
      some (p :: ps, rest)
    | c :: rest => do
      let (ps, rest) ← quotedPieces n rest
      some (.literal [c] true :: ps, rest)

/-- The pieces of a word. -/
def pieces : Nat → List Char → Option (List Piece × List Char)
  | 0, _ => none
  | n + 1, cs =>
    match cs with
    | [] => some ([], [])
    | '\'' :: rest =>
      match rest.dropWhile (· ≠ '\'') with
      | _ :: after => do
        let (ps, rest') ← pieces n after
        some (.literal (rest.takeWhile (· ≠ '\'')) true :: ps, rest')
      | [] => none
    | '"' :: rest => do
      let (qs, rest) ← quotedPieces n rest
      let (ps, rest) ← pieces n rest
      some (qs ++ ps, rest)
    | '\\' :: c :: rest => do
      let (ps, rest) ← pieces n rest
      if c = '\n' then some (ps, rest) else some (.literal [c] true :: ps, rest)
    | '$' :: rest => do
      let (p, rest) ← dollar n false rest
      let (ps, rest) ← pieces n rest
      some (p :: ps, rest)
    | c :: rest =>
      if isMeta c then some ([], cs)
      else do
        let (ps, rest) ← pieces n rest
        some (.literal [c] false :: ps, rest)

/-- The words of a simple command, and its redirections, the first one first. -/
def simpleParts : Nat → List Char →
    Option (List (List Piece) × List (Nat × Direction × List Piece) × List Char)
  | 0, _ => none
  | n + 1, cs =>
    let cs := skipSpace cs
    match direction? cs with
    | some (stream, d, rest) => do
      let (file, rest) ← pieces n (skipSpace rest)
      let (ws, rs, rest) ← simpleParts n rest
      some (ws, (stream, d, file) :: rs, rest)
    | none =>
      match cs with
      | [] => some ([], [], [])
      | c :: _ =>
        if isMeta c then some ([], [], cs)
        else do
          let (w, rest) ← pieces n cs
          let (ws, rs, rest) ← simpleParts n rest
          some (w :: ws, rs, rest)

/-- What may follow a command that is made of others. -/
def redirections : Nat → Command → List Char → Option (Command × List Char)
  | 0, _, _ => none
  | n + 1, c, cs => do
    let (ws, rs, rest) ← simpleParts n cs
    if ws.isEmpty then
      some (rs.foldr (fun (stream, d, file) c => .redirect c stream d file) c, rest)
    else none

/-- The branches of a conditional after `if` or `elif`. -/
def branches : Nat → List Char → Option (Command × List Char)
  | 0, _ => none
  | n + 1, cs => do
    let (test, rest) ← commands n cs
    let rest ← keyword? "then" rest
    let (yes, rest) ← commands n rest
    match keyword? "elif" rest with
    | some rest => do
      let (no, rest) ← branches n rest
      some (.branch test yes no, rest)
    | none =>
      match keyword? "else" rest with
      | some rest => do
        let (no, rest) ← commands n rest
        let rest ← keyword? "fi" rest
        some (.branch test yes no, rest)
      | none => do
        let rest ← keyword? "fi" rest
        some (.branch test yes .skip, rest)

/-- One command without joints. -/
def oneCommand : Nat → List Char → Option (Command × List Char)
  | 0, _ => none
  | n + 1, cs =>
    let cs := skipSpace cs
    match keyword? "!" cs, keyword? "if" cs, keyword? "while" cs, keyword? "until" cs,
      keyword? "for" cs, keyword? "\x7b" cs, cs with
    | some rest, _, _, _, _, _, _ => do
      let (c, rest) ← oneCommand n rest
      some (.negate c, rest)
    | _, some rest, _, _, _, _, _ => do
      let (c, rest) ← branches n rest
      redirections n c rest
    | _, _, some rest, _, _, _, _ => do
      let (c, rest) ← looped n true rest
      redirections n c rest
    | _, _, _, some rest, _, _, _ => do
      let (c, rest) ← looped n false rest
      redirections n c rest
    | _, _, _, _, some rest, _, _ => do
      let rest := skipSpace rest
      let name := rest.takeWhile isNameChar
      let rest := rest.dropWhile isNameChar
      let (words, rest) ←
        match keyword? "in" rest with
        | some rest => do
          let (ws, _, rest) ← simpleParts n rest
          some (ws, rest)
        | none => some ([[.parameter ['@'] true]], rest)
      let rest ← keyword? "do" (skipLines n rest)
      let (body, rest) ← commands n rest
      let rest ← keyword? "done" rest
      redirections n (.each name words body) rest
    | _, _, _, _, _, some rest, _ => do
      let (c, rest) ← commands n rest
      let rest ← keyword? "\x7d" rest
      redirections n c rest
    | _, _, _, _, _, _, '(' :: rest => do
      let (c, rest) ← commands n rest
      match skipLines n rest with
      | ')' :: rest => redirections n (.nested c) rest
      | _ => none
    | _, _, _, _, _, _, _ => do
      let (ws, rs, rest) ← simpleParts n cs
      if ws.isEmpty && rs.isEmpty then none
      else some (rs.foldr (fun (stream, d, file) c => .redirect c stream d file) (.simple ws), rest)

/-- A loop after its first word. -/
def looped : Nat → Bool → List Char → Option (Command × List Char)
  | 0, _, _ => none
  | n + 1, whileTrue, cs => do
    let (test, rest) ← commands n cs
    let rest ← keyword? "do" rest
    let (body, rest) ← commands n rest
    let rest ← keyword? "done" rest
    some (.loop test whileTrue body, rest)

/-- Commands joined by pipes. -/
def piped : Nat → List Char → Option (Command × List Char)
  | 0, _ => none
  | n + 1, cs => do
    let (c, rest) ← oneCommand n cs
    match skipSpace rest with
    | '|' :: '|' :: _ => some (c, rest)
    | '|' :: rest => do
      let (b, rest) ← piped n (skipLines n rest)
      some (.join .pipe c b, rest)
    | rest => some (c, rest)

/-- Commands joined to a first one by `&&` and `||`, from the left. -/
def conditional : Nat → Command → List Char → Option (Command × List Char)
  | 0, _, _ => none
  | n + 1, a, cs =>
    match skipSpace cs with
    | '&' :: '&' :: rest => do
      let (b, rest) ← piped n (skipLines n rest)
      conditional n (.join .and a b) rest
    | '|' :: '|' :: rest => do
      let (b, rest) ← piped n (skipLines n rest)
      conditional n (.join .or a b) rest
    | rest => some (a, rest)

/-- Commands one after another, up to a word or a sign that closes them. -/
def commands : Nat → List Char → Option (Command × List Char)
  | 0, _ => none
  | n + 1, cs =>
    let cs := skipLines n cs
    if cs.isEmpty || cs.head? = some ')' || closers.contains (frontWord cs) then some (.skip, cs)
    else do
      let (a, rest) ← piped n cs
      let (a, rest) ← conditional n a rest
      let (b, rest) ← commands n rest
      some (.join .next a b, rest)

end

/-- The command that a script stands for. -/
def parse (text : List Char) : Option Command :=
  match commands (20 * text.length + 20) text with
  | some (c, []) => some c
  | _ => none

end Shell

end Starfilm
