/-!
# Faults of a disk

Why a disk refuses. The texts are those that the system's error numbers stand for.
-/

namespace Starfilm

namespace Disk

/-- Why a disk refuses. -/
inductive Fault where
  | notFound
  | denied
  | badProgram
  | exists
  | notDirectory
  | isDirectory
  | full
  | nameTooLong
  /-- A name with a zero character in it. -/
  | badName
  /-- A file that is no text. -/
  | notText
  deriving DecidableEq, Repr

/-- The text of a fault. -/
def Fault.message : Fault → String
  | notFound => "No such file or directory (os error 2)"
  | badProgram => "Exec format error (os error 8)"
  | denied => "Permission denied (os error 13)"
  | .exists => "File exists (os error 17)"
  | notDirectory => "Not a directory (os error 20)"
  | isDirectory => "Is a directory (os error 21)"
  | full => "No space left on device (os error 28)"
  | nameTooLong => "File name too long (os error 36)"
  | badName => "file name contained an unexpected NUL byte"
  | notText => "stream did not contain valid UTF-8"

end Disk

end Starfilm
