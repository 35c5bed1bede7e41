import Starfilm.Film.External
import Starfilm.Shell.Parser
import Starfilm.Shell.Tools

/-!
# Running scripts

A script runs in a shell with parameters, variables and the code of its last command. A command
takes a text and gives one; it may end the script, or the script may kill itself. Of commands joined
by a pipe the first runs to its end before the second begins. The depth of nested evaluations is
bounded by a count, which also bounds the rounds of a loop.

`launch` finds a program as the system does: by its path, if that has a slash, and otherwise in the
directories of the search path. The tools of `Shell.Tools` are there if the system's own directories
are.
-/

namespace Starfilm

namespace Shell

/-- The state of a shell. -/
structure Session where
  disk : Disk
  parameters : List (List Char)
  bindings : List (List Char × List Char)
  /-- The code of the last command. -/
  status : Nat
  /-- Whether the system's own programs are found. -/
  tools : Bool

/-- Whether a script goes on. -/
inductive Flow where
  | onward
  | exits (code : Nat)
  | dies (signal : Nat)
  deriving DecidableEq, Repr

/-- What a command leaves behind. -/
structure Result where
  session : Session
  output : List Char
  flow : Flow

/-- The number that a shell goes by. -/
def processId : List Char := ['1', '0', '0', '0']

/-- A decimal number. -/
def number? (cs : List Char) : Option Nat :=
  if !cs.isEmpty && cs.all Char.isDigit then
    some (cs.foldl (fun n c => 10 * n + (c.toNat - '0'.toNat)) 0)
  else none

/-- A decimal number with a sign. -/
def integer? : List Char → Option Int
  | '-' :: cs => (number? cs).map fun n => -(n : Int)
  | cs => (number? cs).map fun n => (n : Int)

namespace Session

/-- The value of a parameter or variable. -/
def value (s : Session) (name : List Char) : List Char :=
  match name with
  | ['#'] => (toString s.parameters.length).toList
  | ['?'] => (toString s.status).toList
  | ['$'] => processId
  | ['@'] | ['*'] => List.intercalate [' '] s.parameters
  | ['0'] => ['s', 'h']
  | _ =>
    match number? name with
    | some n => s.parameters.getD (n - 1) []
    | none => ((s.bindings.find? fun v => v.1 = name).map (·.2)).getD []

/-- The session with a variable set. -/
def assign (s : Session) (name value : List Char) : Session :=
  { s with bindings := (name, value) :: s.bindings.filter fun v => v.1 ≠ name }

end Session

/-- Words under construction: those that are finished, last first, and the one that is not. -/
structure Fields where
  finished : List (List Char)
  current : Option (List Char)

namespace Fields

/-- More of the current word. -/
def append (f : Fields) (text : List Char) : Fields :=
  { f with current := some (f.current.getD [] ++ text) }

/-- The end of the current word. -/
def close (f : Fields) : Fields :=
  match f.current with
  | some w => ⟨w :: f.finished, none⟩
  | none => f

/-- Text in which blanks end words. -/
def split (f : Fields) (text : List Char) : Fields :=
  text.foldl (fun f c =>
    if c = ' ' || c = '\t' || c = '\n' then f.close else f.append [c]) f

/-- Some words, of which the first goes on with the current one. -/
def spread (f : Fields) : List (List Char) → Fields
  | [] => f
  | [w] => f.append w
  | w :: ws => (f.append w).close.spread ws

end Fields

/-- A text without the line ends at its end. -/
def chop (text : List Char) : List Char := (text.reverse.dropWhile (· = '\n')).reverse

/-- The characters that `echo` writes for its argument, and whether it stops there. -/
def unescape : List Char → List Char × Bool
  | [] => ([], false)
  | '\\' :: 'n' :: cs => let (r, e) := unescape cs; ('\n' :: r, e)
  | '\\' :: 't' :: cs => let (r, e) := unescape cs; ('\t' :: r, e)
  | '\\' :: 'r' :: cs => let (r, e) := unescape cs; ('\r' :: r, e)
  | '\\' :: 'a' :: cs => let (r, e) := unescape cs; ('\x07' :: r, e)
  | '\\' :: 'b' :: cs => let (r, e) := unescape cs; ('\x08' :: r, e)
  | '\\' :: 'f' :: cs => let (r, e) := unescape cs; ('\x0c' :: r, e)
  | '\\' :: 'v' :: cs => let (r, e) := unescape cs; ('\x0b' :: r, e)
  | '\\' :: '\\' :: cs => let (r, e) := unescape cs; ('\\' :: r, e)
  | '\\' :: 'c' :: _ => ([], true)
  | c :: cs => let (r, e) := unescape cs; (c :: r, e)

/-- What `echo` writes. -/
def echo (args : List (List Char)) : List Char :=
  let (newline, args) :=
    match args with
    | ['-', 'n'] :: rest => (false, rest)
    | _ => (true, args)
  let (text, stopped) := unescape (List.intercalate [' '] args)
  if newline && !stopped then text ++ ['\n'] else text

/-- The value of a condition; `none` if it is none. -/
def condition (d : Disk) : List (List Char) → Option Bool
  | ['!'] :: rest => (condition d rest).map not
  | [] => some false
  | [a] => some (!a.isEmpty)
  | [op, a] =>
    match String.ofList op with
    | "-n" => some (!a.isEmpty)
    | "-z" => some a.isEmpty
    | "-e" => some (d.find ⟨a⟩).isOk
    | "-f" => some (d.isFile ⟨a⟩)
    | "-d" => some (d.isDirectory ⟨a⟩)
    | "-s" => some (d.isFile ⟨a⟩ && (textOf d a).getD [] != [])
    | _ => none
  | [a, op, b] =>
    let compare (f : Int → Int → Bool) : Option Bool := do
      let x ← integer? a
      let y ← integer? b
      some (f x y)
    match String.ofList op with
    | "=" => some (a = b)
    | "!=" => some (a ≠ b)
    | "-eq" => compare (· == ·)
    | "-ne" => compare (· != ·)
    | "-lt" => compare (· < ·)
    | "-le" => compare (· ≤ ·)
    | "-gt" => compare (· > ·)
    | "-ge" => compare (· ≥ ·)
    | _ => none
  | _ => none

/-- The number of a signal, which may be given by its name. -/
def signal? (cs : List Char) : Option Nat :=
  match number? cs with
  | some n => some n
  | none =>
    let name := String.ofList cs
    (ExitStatus.signalNames.findIdx? fun s => s = name || s = "SIG" ++ name).map (· + 1)

/-- Signals that do nothing by themselves. -/
def isIgnored (n : Nat) : Bool := [0, 17, 18, 23, 28].contains n

/-- What `kill` does: a code, and perhaps the death of the shell. -/
def kill (args : List (List Char)) : Nat × Flow :=
  let send (signal : Option Nat) (targets : List (List Char)) : Nat × Flow :=
    match signal with
    | none => (2, .onward)
    | some n =>
      if targets.contains processId then
        if isIgnored n then (0, .onward) else (0, .dies n)
      else (1, .onward)
  match args with
  | ['-', 's'] :: name :: targets => send (signal? name) targets
  | ('-' :: name) :: targets => send (signal? name) targets
  | targets => send (some 15) targets

/-- The name and the value of an assignment. -/
def assignment? (pieces : List Piece) : Option (List Char × List Piece) :=
  let rec go (name : List Char) : List Piece → Option (List Char × List Piece)
    | .literal ['='] false :: rest => if name.isEmpty then none else some (name.reverse, rest)
    | .literal [c] false :: rest =>
      if isNameChar c && !(name.isEmpty && c.isDigit) then go (c :: name) rest else none
    | _ => none
  go [] pieces

/-- Programs may be scripts for one of these. -/
def interpreters : List String := ["/bin/sh", "/usr/bin/env sh", "/bin/bash", "/bin/dash"]

/-- The script that a file is, if it can be run. -/
def script? (d : Disk) (p : Path) : Except Disk.Fault Command := do
  match ← d.find p with
  | (_, .file (.text s) true) =>
    match s.toList with
    | '#' :: '!' :: rest =>
      let first := rest.takeWhile (· ≠ '\n')
      let interpreter := String.ofList (chop ((first.dropWhile (· = ' ')).reverse.dropWhile
        (· = ' ')).reverse)
      if interpreters.contains interpreter then
        .ok ((parse (rest.dropWhile (· ≠ '\n'))).getD
          (.simple [[.literal ['e', 'x', 'i', 't'] true], [.literal ['2'] true]]))
      else .error .notFound
    | _ => .error .badProgram
  | (_, .file _ true) => .error .badProgram
  | _ => .error .denied

/-- The script that a name leads to in some directories. -/
def search (d : Disk) (name : Path) : List Path → Except Disk.Fault Command
  | [] => .error .notFound
  | dir :: rest =>
    match script? d (dir.join name) with
    | .ok c => .ok c
    | .error .denied =>
      match search d name rest with
      | .ok c => .ok c
      | .error _ => .error .denied
    | .error .badProgram => .error .badProgram
    | .error _ => search d name rest

mutual

/-- The words that pieces become. -/
def expand : Nat → List Piece → Fields → Session → Fields × Session
  | 0, _, f, s => (f, s)
  | _, [], f, s => (f, s)
  | n + 1, p :: ps, f, s =>
    match p with
    | .literal text _ => expand n ps (f.append text) s
    | .parameter name quoted =>
      if name = ['@'] && quoted then expand n ps (f.spread s.parameters) s
      else if quoted then expand n ps (f.append (s.value name)) s
      else expand n ps (f.split (s.value name)) s
    | .output c quoted =>
      let r := eval n c [] s
      let text := chop r.output
      let s := { s with disk := r.session.disk, status := r.session.status }
      expand n ps (if quoted then f.append text else f.split text) s

/-- The words that some words become. -/
def expandAll : Nat → List (List Piece) → Session → List (List Char) × Session
  | 0, _, s => ([], s)
  | _, [], s => ([], s)
  | n + 1, w :: ws, s =>
    let (f, s) := expand n w ⟨[], none⟩ s
    let (rest, s) := expandAll n ws s
    (f.close.finished.reverse ++ rest, s)

/-- One word that pieces become, without splitting. -/
def expandOne : Nat → List Piece → Session → List Char × Session
  | 0, _, s => ([], s)
  | n + 1, w, s =>
    let (f, s) := expand n w ⟨[], none⟩ s
    (List.intercalate [' '] f.close.finished.reverse, s)

/-- Runs a command on a text. -/
def eval : Nat → Command → List Char → Session → Result
  | 0, _, _, s => ⟨s, [], .exits 2⟩
  | n + 1, c, text, s =>
    let done (s : Session) (code : Nat) (output : List Char) : Result :=
      ⟨{ s with status := code }, output, .onward⟩
    match c with
    | .skip => ⟨s, [], .onward⟩
    | .simple words =>
      match words with
      | [] => done s 0 []
      | w :: rest =>
        match assignment? w with
        | some (name, value) =>
          let (v, s) := expandOne n value s
          eval n (.simple rest) text (s.assign name v)
        | none =>
          let (args, s) := expandAll n (w :: rest) s
          call n args text s
    | .join .next a b =>
      let r := eval n a text s
      if r.flow = .onward then
        let q := eval n b text r.session
        { q with output := r.output ++ q.output }
      else r
    | .join .and a b =>
      let r := eval n a text s
      if r.flow = .onward && r.session.status = 0 then
        let q := eval n b text r.session
        { q with output := r.output ++ q.output }
      else r
    | .join .or a b =>
      let r := eval n a text s
      if r.flow = .onward && r.session.status ≠ 0 then
        let q := eval n b text r.session
        { q with output := r.output ++ q.output }
      else r
    | .join .pipe a b =>
      let r := eval n a text s
      let q := eval n (.nested b) r.output { s with disk := r.session.disk }
      match r.flow with
      | .dies signal => { q with flow := .dies signal }
      | _ => q
    | .negate a =>
      let r := eval n a text s
      if r.flow = .onward then
        { r with session := { r.session with status := if r.session.status = 0 then 1 else 0 } }
      else r
    | .nested a =>
      let r := eval n a text s
      let back (code : Nat) : Result :=
        ⟨{ s with disk := r.session.disk, status := code }, r.output, .onward⟩
      match r.flow with
      | .onward => back r.session.status
      | .exits code => back code
      | .dies signal => ⟨{ s with disk := r.session.disk }, r.output, .dies signal⟩
    | .branch test yes no =>
      let r := eval n test text s
      if r.flow = .onward then
        let q :=
          if r.session.status = 0 then eval n yes text { r.session with status := 0 }
          else eval n no text { r.session with status := 0 }
        { q with output := r.output ++ q.output }
      else r
    | .loop test whileTrue body =>
      let r := eval n test text s
      if r.flow = .onward then
        if (r.session.status == 0) == whileTrue then
          let q := eval n body text r.session
          let out := r.output ++ q.output
          if q.flow = .onward then
            let again := eval n (.loop test whileTrue body) text q.session
            { again with output := out ++ again.output }
          else { q with output := out }
        else done r.session 0 r.output
      else r
    | .each name words body =>
      let (values, s) := expandAll n words s
      values.foldl (fun r v =>
        if r.flow = .onward then
          let q := eval n body text (r.session.assign name v)
          { q with output := r.output ++ q.output }
        else r) ⟨{ s with status := 0 }, [], .onward⟩
    | .redirect a stream d file =>
      let (name, s) := expandOne n file s
      let path : Path := ⟨name⟩
      match d with
      | .along =>
        let r := eval n a text s
        if stream = 1 then { r with output := [] } else r
      | .from =>
        match textOf s.disk name with
        | some content => eval n a content s
        | none => done s 2 []
      | .over | .behind =>
        let before := if d = .behind then (textOf s.disk name).getD [] else []
        match s.disk.write path (.text (String.ofList before)) with
        | .error _ => done s 2 []
        | .ok disk =>
          let r := eval n a text { s with disk }
          if stream = 1 then
            match r.session.disk.write path (.text (String.ofList (before ++ r.output))) with
            | .ok disk => { r with session := { r.session with disk }, output := [] }
            | .error _ => { r with output := [] }
          else r

/-- Runs the command with this name and these arguments. -/
def call : Nat → List (List Char) → List Char → Session → Result
  | 0, _, _, s => ⟨s, [], .exits 2⟩
  | _, [], _, s => ⟨{ s with status := 0 }, [], .onward⟩
  | n + 1, name :: args, text, s =>
    let done (code : Nat) (output : List Char) : Result :=
      ⟨{ s with status := code }, output, .onward⟩
    let test (args : List (List Char)) : Result :=
      match condition s.disk args with
      | some true => done 0 []
      | some false => done 1 []
      | none => done 2 []
    match String.ofList name with
    | ":" => done 0 []
    | "true" => done 0 []
    | "false" => done 1 []
    | "echo" => done 0 (echo args)
    | "exit" =>
      match args with
      | [] => ⟨s, [], .exits s.status⟩
      | a :: _ => ⟨s, [], .exits (((number? a).map (· % 256)).getD 2)⟩
    | "shift" =>
      let k := ((args.head?.bind number?)).getD 1
      if k ≤ s.parameters.length then
        ⟨{ s with parameters := s.parameters.drop k, status := 0 }, [], .onward⟩
      else ⟨s, [], .exits 2⟩
    | "kill" =>
      let (code, flow) := kill args
      ⟨{ s with status := code }, [], flow⟩
    | "test" => test args
    | "[" => if args.getLast? = some [']'] then test args.dropLast else done 2 []
    | word =>
      if name.contains '/' then
        match script? s.disk ⟨name⟩ with
        | .error .notFound => done 127 []
        | .error _ => done 126 []
        | .ok c =>
          let r := eval n c text ⟨s.disk, args, [], 0, s.tools⟩
          let back (code : Nat) : Result :=
            ⟨{ s with disk := r.session.disk, status := code }, r.output, .onward⟩
          match r.flow with
          | .onward => back r.session.status
          | .exits code => back code
          | .dies signal => back (128 + signal)
      else
        match (if s.tools then tool? word args text s.disk else none) with
        | some r => ⟨{ s with disk := r.disk, status := r.code }, r.output, .onward⟩
        | none => done 127 []

end

/-- How deep evaluations may be nested, loops included. -/
def maxDepth : Nat := 10000

/-- Runs a script to its end. -/
def runScript (tools : Bool) (c : Command) (args : List (List Char)) (d : Disk) :
    ExitStatus × Disk :=
  let r := eval maxDepth c [] ⟨d, args, [], 0, tools⟩
  let status : ExitStatus :=
    match r.flow with
    | .onward => .exited r.session.status
    | .exits code => .exited code
    | .dies signal => .killed signal
  (status, r.session.disk)

/-- Runs programs. `path` are the directories that are searched for names without a slash, and
`tools` tells whether the system's own are among them. -/
def launch (path : List Path) (tools : Bool) : Launcher := fun program args d =>
  let words := args.map String.toList
  let found :=
    if program.chars.contains '/' then script? d program
    else search d program path
  match found with
  | .ok c =>
    let (status, d) := runScript tools c words d
    (.ok status, d)
  | .error f =>
    if f = .notFound && tools && !program.chars.contains '/' then
      match tool? program.text words [] d with
      | some r => (.ok (.exited r.code), r.disk)
      | none => (.error f, d)
    else (.error f, d)

end Shell

end Starfilm
