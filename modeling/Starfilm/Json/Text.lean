import Starfilm.Json.Number

/-!
# Reading JSON text

`Document.ofChars` reads a text into a `Document`. Each reader returns what it read and, unless it
had to stop, the characters that are left. The readers of values call each other on what is left,
and of any two calls in a row one takes a character off; the count they carry is twice the length of
the text, so it never runs out before the text does.
-/

namespace Starfilm

namespace Json

/-- What is left of a text; `none` when reading had to stop. -/
abbrev Rest := Option (List Char)

/-- Blanks, tabs and line ends. -/
def isBlank (c : Char) : Bool := c = ' ' || c = '\n' || c = '\t' || c = '\r'

/-- The text after its blanks. -/
def skipBlanks (cs : List Char) : List Char := cs.dropWhile isBlank

/-! ## Strings -/

/-- The value of a hexadecimal digit. -/
def hexValue? (c : Char) : Option Nat :=
  if c.isDigit then some (c.toNat - '0'.toNat)
  else if 'a' ≤ c && c ≤ 'f' then some (c.toNat - 'a'.toNat + 10)
  else if 'A' ≤ c && c ≤ 'F' then some (c.toNat - 'A'.toNat + 10)
  else none

/-- The code unit of the four digits of an escape. An escape that is cut off by the end of the
text, less than four bytes on, is a fault of its own. -/
def hexUnit (cs : List Char) : Except Fault (Nat × List Char) :=
  match cs with
  | a :: b :: c :: d :: rest =>
    match hexValue? a, hexValue? b, hexValue? c, hexValue? d with
    | some a, some b, some c, some d => .ok (((a * 16 + b) * 16 + c) * 16 + d, rest)
    | _, _, _, _ => .error .malformed
  | _ => if (String.ofList cs).utf8ByteSize < 4 then .error .truncated else .error .malformed

/-- The character that a letter after a backslash stands for. -/
def escaped? : Char → Option Char
  | '"' => some '"'
  | '\\' => some '\\'
  | '/' => some '/'
  | 'b' => some '\x08'
  | 'f' => some '\x0c'
  | 'n' => some '\n'
  | 'r' => some '\r'
  | 't' => some '\t'
  | _ => none

/-- What an escape `\u` gives: a character, or the fault of one who needs a character, and in either
case what is left; or the fault of everyone. A unit of the leading range needs a unit of the
trailing range after it. -/
def unicodeEscape (cs : List Char) : Except Fault (Except Fault Char × List Char) := do
  let (n, rest) ← hexUnit cs
  if 0xDC00 ≤ n && n ≤ 0xDFFF then .ok (.error .malformed, rest)
  else if n < 0xD800 || 0xDBFF < n then .ok (.ok (Char.ofNat n), rest)
  else
    match rest with
    | [] => .error .truncated
    | ['\\'] => .error .truncated
    | '\\' :: 'u' :: more =>
      let (m, left) ← hexUnit more
      if 0xDC00 ≤ m && m ≤ 0xDFFF then
        .ok (.ok (Char.ofNat (0x10000 + (n - 0xD800) * 0x400 + (m - 0xDC00))), left)
      else .ok (.error .malformed, rest)
    | _ => .ok (.error .malformed, rest)

/-- The content of a string after its opening quote: the text or the first fault of one who needs
it, and what is left or the fault of everyone. `done` holds the characters read, last first. -/
def stringBody : Nat → Except Fault (List Char) → List Char →
    Except Fault (List Char) × Except Fault (List Char)
  | 0, done, _ => (done, .error .truncated)
  | fuel + 1, done, cs =>
    let stop (f : Fault) : Except Fault (List Char) × Except Fault (List Char) :=
      (done.bind fun _ => .error f, .error f)
    match cs with
    | [] => stop .truncated
    | '"' :: rest => (done.map List.reverse, .ok rest)
    | '\\' :: [] => stop .truncated
    | '\\' :: 'u' :: rest =>
      match unicodeEscape rest with
      | .error f => stop f
      | .ok (c, left) => stringBody fuel (do let d ← done; let c ← c; .ok (c :: d)) left
    | '\\' :: c :: rest =>
      match escaped? c with
      | some c => stringBody fuel (done.map (c :: ·)) rest
      | none => stop .malformed
    | c :: rest =>
      if c.toNat < 0x20 then stop .malformed else stringBody fuel (done.map (c :: ·)) rest

/-- A string after its opening quote. -/
def string (cs : List Char) : Except Fault String × Except Fault (List Char) :=
  let (body, rest) := stringBody (cs.length + 1) (.ok []) cs
  (body.map String.ofList, rest)

/-! ## Numbers -/

/-- The digits in front of a text. -/
def splitDigits (cs : List Char) : List Char × List Char :=
  (cs.takeWhile Char.isDigit, cs.dropWhile Char.isDigit)

/-- The fault of a number that lacks a digit: at the end of the text one who needs the number waits
for more. -/
def missingDigit {F : Type} (cs : List Char) : Document F :=
  .broken (if cs.isEmpty then .truncated else .malformed) (some .malformed)

/-- The exponent of a number, if an `e` announces one. -/
def exponent (cs : List Char) : Except (List Char) (Option Int × List Char) :=
  match cs with
  | c :: rest =>
    if c = 'e' || c = 'E' then
      let (negative, rest) :=
        match rest with
        | '+' :: more => (false, more)
        | '-' :: more => (true, more)
        | _ => (false, rest)
      let (ds, left) := splitDigits rest
      if ds.isEmpty then .error rest
      else
        let n : Int := Decimal.ofDigits ds
        .ok (some (if negative then -n else n), left)
    else .ok (none, cs)
  | [] => .ok (none, [])

/-- A number without its sign. -/
def number {F : Type} [Arith F] (negative : Bool) (cs : List Char) : Document F × Rest :=
  let (whole, rest) := splitDigits cs
  let finish (fraction : List Char) (rest : List Char) : Document F × Rest :=
    match exponent rest with
    | .error left => (missingDigit left, none)
    | .ok (e, left) => (Number.Parts.document ⟨negative, whole, fraction, e⟩, some left)
  match whole with
  | [] => (missingDigit cs, none)
  | '0' :: _ :: _ => (.broken .malformed (some .malformed), none)
  | _ =>
    match rest with
    | '.' :: more =>
      let (fraction, left) := splitDigits more
      if fraction.isEmpty then (missingDigit more, none) else finish fraction left
    | _ => finish [] rest

/-! ## Values -/

/-- A value that stops reading. -/
def stopped {F : Type} (f : Fault) : Document F × Rest := (.broken f (some f), none)

/-- The rest of a word such as `true`. -/
def word {F : Type} (d : Document F) : List Char → List Char → Document F × Rest
  | [], cs => (d, some cs)
  | _ :: _, [] => stopped .truncated
  | w :: ws, c :: cs => if w = c then word d ws cs else stopped .malformed

/-- The fault in place of an expected sign. -/
def missing (cs : List Char) : Fault := if cs.isEmpty then .truncated else .malformed

mutual

/-- A value. -/
def readValue {F : Type} [Arith F] : Nat → List Char → Document F × Rest
  | 0, _ => stopped .truncated
  | fuel + 1, cs =>
    match skipBlanks cs with
    | [] => stopped .truncated
    | 'n' :: rest => word .null ['u', 'l', 'l'] rest
    | 't' :: rest => word (.bool true) ['r', 'u', 'e'] rest
    | 'f' :: rest => word (.bool false) ['a', 'l', 's', 'e'] rest
    | '"' :: rest =>
      match string rest with
      | (.ok s, .ok left) => (.text s, some left)
      | (.error f, .ok left) => (.broken f none, some left)
      | (.error f, .error g) => (.broken f (some g), none)
      | (.ok _, .error g) => stopped g
    | '-' :: rest => number true rest
    | '[' :: rest => readItems fuel [] true rest
    | '{' :: rest => readMembers fuel [] true rest
    | c :: rest => if c.isDigit then number false (c :: rest) else stopped .malformed

/-- The items of an array after its bracket, or after an item. `done` holds the items read, last
first. -/
def readItems {F : Type} [Arith F] :
    Nat → List (Document F) → Bool → List Char → Document F × Rest
  | 0, done, _, _ => (.array done.reverse (some .truncated), none)
  | fuel + 1, done, isFirst, cs =>
    let item (cs : List Char) : Document F × Rest :=
      match readValue fuel cs with
      | (d, some left) => readItems fuel (d :: done) false left
      | (d, none) => (.array (d :: done).reverse (some .malformed), none)
    match skipBlanks cs with
    | [] => (.array done.reverse (some .truncated), none)
    | ']' :: rest => (.array done.reverse none, some rest)
    | ',' :: rest =>
      if isFirst then item (',' :: rest) else item rest
    | c :: rest =>
      if isFirst then item (c :: rest) else (.array done.reverse (some .malformed), none)

/-- The members of an object after its brace, or after a member. -/
def readMembers {F : Type} [Arith F] :
    Nat → List (Except Fault String × Document F) → Bool → List Char → Document F × Rest
  | 0, done, _, _ => (.object done.reverse (some .truncated), none)
  | fuel + 1, done, isFirst, cs =>
    let stop (f : Fault) : Document F × Rest := (.object done.reverse (some f), none)
    let member (rest : List Char) : Document F × Rest :=
      match string rest with
      | (key, .error f) =>
        (.object ((key.bind fun _ => .error f, .broken f (some f)) :: done).reverse (some f), none)
      | (key, .ok left) =>
        match skipBlanks left with
        | ':' :: more =>
          match readValue fuel more with
          | (d, some left) => readMembers fuel ((key, d) :: done) false left
          | (d, none) => (.object ((key, d) :: done).reverse (some .malformed), none)
        | other =>
          (.object ((key, (stopped (missing other)).1) :: done).reverse (some .malformed), none)
    match skipBlanks cs with
    | [] => stop .truncated
    | '}' :: rest => (.object done.reverse none, some rest)
    | '"' :: rest => if isFirst then member rest else stop .malformed
    | ',' :: rest =>
      if isFirst then stop .malformed
      else
        match skipBlanks rest with
        | '"' :: more => member more
        | other => stop (missing other)
    | _ => stop .malformed

end

/-- A whole text: its document, and whether anything but blanks follows it. -/
def Document.ofChars {F : Type} [Arith F] (cs : List Char) : Document F × Option Fault :=
  match readValue (2 * cs.length + 2) cs with
  | (d, none) => (d, none)
  | (d, some rest) => (d, if (skipBlanks rest).isEmpty then none else some .malformed)

/-- The value a text writes. -/
def parse {F : Type} [Arith F] (text : String) : Except Fault (Json F) := do
  let (d, trailing) := Document.ofChars text.toList
  let v ← (d.within 0).value
  stopAt trailing
  .ok v.settled

end Json

end Starfilm
