import Starfilm.Decimal.Read
import Starfilm.Settings.File

/-!
# Arguments

The settings of a run come from a file, if one is named, and otherwise from the defaults; each
option that has a value replaces one of them. The value of an option is the argument after its first
occurrence that has one. Angles are for tilted views only.
-/

namespace Starfilm

/-- Why arguments are refused. -/
inductive ArgumentError where
  | failure (f : Failure)
  /-- The value of an option is no number of its kind. -/
  | badValue (value option : String)
  /-- No view has this name. -/
  | unknownMode (word : String)
  /-- Angles are given for a view that has none. -/
  | strayAngle (kind : ViewKind)
  deriving DecidableEq

namespace ArgumentError

/-- What is wrong, in a line. -/
def message : ArgumentError → String
  | failure f => f.message
  | badValue value option => s!"invalid value `{value}` for {option}"
  | unknownMode word => s!"unknown mode `{word}`, expected face-on, edge-on or tilted"
  | strayAngle kind =>
    s!"--angle-x and --angle-z need --mode tilted, the mode is {kind.name}"

/-- The failure underneath, where there is one. -/
def cause? : ArgumentError → Option String
  | failure f => f.cause?
  | _ => none

end ArgumentError

namespace CommandLine

/-- The argument after the first occurrence of an option that has one. -/
def value? (option : String) : List String → Option String
  | a :: b :: rest => if a = option then some b else value? option (b :: rest)
  | _ => none

/-- The value of an option as `read` reads it, or a default where it has none. -/
def readValue {A : Type} (read : String → Option A) (option : String) (default : A)
    (args : List String) : Except ArgumentError A :=
  match value? option args with
  | none => .ok default
  | some v =>
    match read v with
    | some a => .ok a
    | none => .error (.badValue v option)

/-- The path that an option gives, or a default. -/
def pathOr (option : String) (default : Path) (args : List String) : Path :=
  match value? option args with
  | some v => .ofString v
  | none => default

/-- A count of thirty-two bits. -/
def count? (text : String) : Option UInt32 := (Decimal.count? maxCount text).map UInt32.ofNat

variable {F : Type} [Arith F]

/-- The angles of a view, or the usual ones. -/
def angles : ViewMode F → F × F
  | .tilted x z => (x, z)
  | _ => (Arith.nat 30, Arith.nat 20)

/-- The view of a kind. -/
def modeOf (x z : F) : ViewKind → ViewMode F
  | .faceOn => .faceOn
  | .edgeOn => .edgeOn
  | .tilted => .tilted x z

/-- The kind of view that the arguments name, in the stead of another. -/
def kind (base : ViewKind) (args : List String) : Except ArgumentError ViewKind :=
  match value? "--mode" args with
  | none => .ok base
  | some word =>
    match ViewKind.ofName? word with
    | some kind => .ok kind
    | none => .error (.unknownMode word)

/-- The view that the arguments ask for, in the stead of another. -/
def mode [DecimalReader F] (base : ViewMode F) (args : List String) :
    Except ArgumentError (ViewMode F) := do
  let x ← readValue DecimalReader.ofText? "--angle-x" (angles base).1 args
  let z ← readValue DecimalReader.ofText? "--angle-z" (angles base).2 args
  let kind ← kind base.kind args
  let given := (value? "--angle-x" args).isSome || (value? "--angle-z" args).isSome
  if given && kind ≠ .tilted then .error (.strayAngle kind) else .ok (modeOf x z kind)

/-- The settings to which the options are applied. -/
def base [DecimalText F] (d : Disk) (args : List String) : Except ArgumentError (Settings F) :=
  match value? "--config" args with
  | none => .ok .default
  | some path =>
    match Settings.ofFile d (.ofString path) with
    | .ok s => .ok s
    | .error f => .error (.failure f)

/-- The settings that arguments ask for. -/
def settings [DecimalText F] [DecimalReader F] (d : Disk) (args : List String) :
    Except ArgumentError (Settings F) := do
  let s : Settings F ← base d args
  let fps ← readValue count? "--fps" s.fps args
  let mode ← mode s.mode args
  let s : Settings F := { s with
    inputDir := pathOr "--input" s.inputDir args
    framesDir := pathOr "--frames" s.framesDir args
    saveFile := pathOr "--output" s.saveFile args
    fps, mode }
  match s.validate with
  | .ok () => .ok s
  | .error f => .error (.failure f)

/-- Whether a film is asked for. -/
def wantsFilm (args : List String) : Bool := !args.contains "--no-video"

end CommandLine

end Starfilm
