import Starfilm.Disk.Path
import Starfilm.Json.Document

/-!
# Failures

Everything that can end a run. `Failure.message` says what happened, `Failure.cause?` names the
failure underneath, and `Failure.isRecoverable` tells which failures a run may go on from: only
those of an encoder, since another one may do.
-/

namespace Starfilm

/-- Why a run ended. -/
inductive Failure where
  /-- A snapshot file lacks something it must have. -/
  | missingField (path : Path) (field : String)
  /-- A snapshot file holds something of the wrong shape. -/
  | malformedData (path : Path) (reason : String)
  /-- There is no finite point to frame. -/
  | nothingToFrame
  /-- The disk refused. -/
  | disk (path : Path) (reason : String)
  /-- A snapshot file cannot be read as a tree of groups and data sets. -/
  | container (path : Path) (reason : String)
  /-- A picture cannot be read or written. -/
  | picture (path : Path) (reason : String)
  /-- An encoder did not make its animation. -/
  | encoding (encoder : String) (reason : String)
  /-- A settings file is not the JSON of settings. -/
  | malformedSettings (path : Path) (fault : Json.Fault)
  /-- Settings that make no sense. -/
  | invalidSettings (reason : String)
  /-- Newly formed stars whose columns differ in length. -/
  | unequalColumns
  /-- A picture without pixels was to show a point. -/
  | emptyRaster
  /-- A random distribution over an impossible range. -/
  | emptyRange
  /-- Random draws that were rejected too often. -/
  | unsettledDraw
  /-- More stars than a list can hold. -/
  | tooManyStars
  deriving DecidableEq

/-- What is wrong with a text that should have been JSON. -/
def Json.Fault.message : Json.Fault → String
  | .malformed => "not JSON"
  | .truncated => "the text ends too early"
  | .mismatched => "a value of another type or shape was expected"

namespace Failure

/-- What happened, in a line. -/
def message : Failure → String
  | missingField p field => s!"{p.text}: missing required field `{field}`"
  | malformedData p reason => s!"{p.text}: {reason}"
  | nothingToFrame => "no particles to frame: no snapshots found or every snapshot is empty"
  | disk p reason => s!"I/O error at {p.text}: {reason}"
  | container p reason => s!"HDF5 error in {p.text}: {reason}"
  | picture p reason => s!"image error at {p.text}: {reason}"
  | encoding encoder reason => s!"{encoder} could not encode the sequence: {reason}"
  | malformedSettings p fault => s!"invalid configuration in {p.text}: {fault.message}"
  | invalidSettings reason => s!"invalid configuration: {reason}"
  | unequalColumns => "positions, masses and formation times differ in length"
  | emptyRaster => "a picture without pixels cannot show a point"
  | emptyRange => "a range whose ends are out of order or too far apart"
  | unsettledDraw => "random draws were rejected too often"
  | tooManyStars => "more stars than a list can hold"

/-- The failure underneath, where there is one. -/
def cause? : Failure → Option String
  | disk _ reason => some reason
  | container _ reason => some reason
  | picture _ reason => some reason
  | malformedSettings _ fault => some fault.message
  | _ => none

/-- Whether a run may go on with another encoder. -/
def isRecoverable : Failure → Bool
  | encoding _ _ => true
  | _ => false

end Failure

end Starfilm
