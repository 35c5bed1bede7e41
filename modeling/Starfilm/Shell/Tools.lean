import Starfilm.Disk
import Starfilm.Shell.Pattern

/-!
# Tools

Programs that scripts call by name, as far as scripts here need them: they get arguments and a text,
and give an exit code and a text. Complaints go to a stream that nobody reads.
-/

namespace Starfilm

namespace Shell

/-- What a tool leaves behind. -/
structure ToolResult where
  code : Nat
  output : List Char
  disk : Disk

/-- The lines of a text. -/
def linesOf (text : List Char) : List (List Char) :=
  match (Path.splitAt '\n' text).reverse with
  | [] :: rest => rest.reverse
  | ls => ls.reverse

/-- Lines as a text. -/
def unlines (ls : List (List Char)) : List Char := ls.flatMap fun l => l ++ ['\n']

/-- The options among arguments, without their dashes, and the other arguments. -/
def options (args : List (List Char)) : List Char × List (List Char) :=
  let isOption (a : List Char) : Bool := a.head? == some '-' && a.length > 1
  ((args.filter isOption).flatMap (·.drop 1), args.filter fun a => !isOption a)

/-- What comes before the last slash of a path. -/
def dirname (p : List Char) : List Char :=
  match (Path.mk p).parent? with
  | some q => if q.chars = [] then ['.'] else q.chars
  | none => if p.head? = some '/' then ['/'] else ['.']

/-- The last name of a path. -/
def basename (p : List Char) : List Char := (Path.mk p).fileName?.getD p

/-- The text that a file holds, whatever it is. -/
def textOf (d : Disk) (p : List Char) : Option (List Char) :=
  match d.content ⟨p⟩ with
  | .ok (.text s) => some s.toList
  | .ok _ => some []
  | .error _ => none

/-- The names that `ls` shows for a path. -/
def listing (d : Disk) (p : List Char) : Option (List (List Char)) :=
  match d.list ⟨p⟩ with
  | .ok names => some ((names.filter fun n => n.head? != some '.').mergeSort Name.le)
  | .error _ => if d.isFile ⟨p⟩ then some [p] else none

/-- The texts of some files together, or the text that is given when none is named. -/
def input (d : Disk) (files : List (List Char)) (text : List Char) : List Char :=
  if files.isEmpty then text else (files.filterMap (textOf d)).flatten

/-- A change of the disk for each of some paths; the exit code tells whether one was refused. -/
def changeAll (f : Disk → Path → Except Disk.Fault Disk) (paths : List (List Char)) (d : Disk) :
    ToolResult :=
  paths.foldl (fun r p =>
    match f r.disk ⟨p⟩ with
    | .ok disk => { r with disk }
    | .error _ => { r with code := 1 }) ⟨0, [], d⟩

/-- A tool by its name. -/
def tool? (name : String) (args : List (List Char)) (text : List Char) (d : Disk) :
    Option ToolResult :=
  let (opts, operands) := options args
  let writes (output : List Char) : Option ToolResult := some ⟨0, output, d⟩
  match name with
  | "true" => writes []
  | "false" => some ⟨1, [], d⟩
  | "sleep" => writes []
  | "dirname" => writes (unlines (operands.map dirname))
  | "basename" => writes (unlines ((operands.take 1).map basename))
  | "cat" => writes (input d operands text)
  | "ls" =>
    let shown := (if operands.isEmpty then [['.']] else operands).map (listing d)
    some ⟨if shown.all Option.isSome then 0 else 2,
      unlines (shown.filterMap id).flatten, d⟩
  | "grep" =>
    match operands with
    | [] => some ⟨2, [], d⟩
    | pattern :: files =>
      let p := Pattern.ofChars pattern
      let hits := (linesOf (input d files text)).filter fun l =>
        p.matchesLine l != opts.contains 'v'
      let output :=
        if opts.contains 'c' then toString hits.length |>.toList |> (· ++ ['\n'])
        else if opts.contains 'q' then []
        else unlines hits
      some ⟨if hits.isEmpty then 1 else 0, output, d⟩
  | "wc" =>
    if opts.contains 'l' then
      let n := ((input d operands text).filter (· = '\n')).length
      writes ((toString n).toList ++ ['\n'])
    else none
  | "touch" =>
    some (changeAll (fun d p =>
      match d.node? <$> d.resolve p with
      | .ok (some _) => .ok d
      | _ => d.write p (.text "")) operands d)
  | "mkdir" =>
    if opts.contains 'p' then
      some (operands.foldl (fun r p =>
        match Disk.createDirectories ⟨p⟩ r.disk with
        | (.ok (), disk) => { r with disk }
        | (.error _, disk) => { r with disk, code := 1 }) ⟨0, [], d⟩)
    else some (changeAll Disk.createDirectory operands d)
  | "rm" =>
    if opts.contains 'r' then
      some (changeAll (fun d p => do
        match ← d.find p with
        | ([], _) => .error .denied
        | (place, _) => .ok (d.eraseTree place)) operands d)
    else some (changeAll Disk.removeFile operands d)
  | "cp" =>
    match operands with
    | [a, b] => some (changeAll (fun d p => do d.write ⟨b⟩ (← d.content p)) [a] d)
    | _ => none
  | _ => none

end Shell

end Starfilm
