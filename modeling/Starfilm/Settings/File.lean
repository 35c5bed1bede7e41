import Starfilm.Disk
import Starfilm.Settings.Json

/-!
# Settings in a file
-/

namespace Starfilm

/-- The settings that a file makes of the default, if a run can be made with them. -/
def Settings.ofFile {F : Type} [Arith F] [DecimalText F] (d : Disk) (path : Path) :
    Except Failure (Settings F) :=
  match d.readText path with
  | .error f => .error (.disk path f.message)
  | .ok text =>
    match Settings.ofText text with
    | .error f => .error (.malformedSettings path f)
    | .ok s => do
      s.validate
      .ok s

end Starfilm
