import Starfilm.Arith.Single
import Starfilm.Command
import Starfilm.Raster.Gif
import Starfilm.Raster.Png
import Starfilm.Shell.Run

/-!
# The program

The command works on a disk of its own. Before it runs, the directories that its settings name are
copied to that disk, and afterwards what has changed is written back. Of outside programs only
scripts are run, on the same disk; an encoder that is a program of another kind is not found, and
films are then looping pictures.
-/

namespace Starfilm

namespace Program

/-- The path of a place from the root. -/
def spelled (p : Place) : String := "/" ++ "/".intercalate (p.reverse.map String.ofList)

/-- Whether there is a directory in a place. -/
def isDirectory (p : Place) : IO Bool := do ((← IO.currentDir) / spelled p).isDir

/-- Whether there is anything in a place. -/
def isThere (p : Place) : IO Bool := do ((← IO.currentDir) / spelled p).pathExists

/-- What the bytes of a file are kept as. -/
def contentOf (bytes : ByteArray) : Content :=
  match String.fromUTF8? bytes with
  | some s => .text s
  | none => .bytes bytes.toList

/-- The bytes of a file. -/
def bytesOf : Content → ByteArray
  | .text s => s.toUTF8
  | .bytes bs => ⟨bs.toArray⟩
  | .picture i => Png.encode i
  | .animation a => Gif.encode a

/-- The disk with what is really in a place. -/
def fetch (d : Disk) (p : Place) : IO Disk := do
  if (d.node? p).isSome then return d
  else if ← isDirectory p then return d.put p .directory
  else if ← isThere p then
    return d.put p (.file (contentOf (← IO.FS.readBinFile (spelled p))) false)
  else return d

/-- The disk with what is really on the way to a path. -/
def follow (d : Disk) (p : Path) : IO Disk := do
  let mut disk := d
  let mut place := if p.isAbsolute then [] else d.here
  for s in p.segments do
    place := Disk.step place s
    disk ← fetch disk place
  return disk

/-- The disk with what is really in the directory of a path. -/
def enter (d : Disk) (p : Path) : IO Disk := do
  let mut disk ← follow d p
  match disk.find p with
  | .ok (place, .directory) =>
    for e in ← ((← IO.currentDir) / spelled place).readDir do
      disk ← fetch disk (e.fileName.toList :: place)
    return disk
  | _ => return disk

/-- A disk with the working directory. -/
def start : IO Disk := do
  let here := (← IO.currentDir).toString
  let place := ((Path.ofString here).segments.filter (· ≠ [])).reverse
  follow ⟨[([], .directory)], place⟩ (.ofString here)

/-- The directories that are searched for programs. -/
def searchPath : IO (List Path) := do
  return (((← IO.getEnv "PATH").getD "").splitOn ":").map .ofString

/-- Whether the system's own programs are in one of some directories. -/
def hasTools (dirs : List Path) : Bool :=
  dirs.any fun dir => dir.text == "/bin" || dir.text == "/usr/bin"

/-- Whether what is in a place is a script. -/
def isScript (p : Place) : IO Bool := do
  if ← isDirectory p then return false
  else if ← isThere p then
    return (← (← IO.FS.Handle.mk (spelled p) .read).read 2) == "#!".toUTF8
  else return false

/-- The disk with the scripts of a name in some directories. They are taken for programs that may be
run. -/
def fetchScripts (d : Disk) (dirs : List Path) (name : Name) : IO Disk := do
  let mut disk := d
  for dir in dirs do
    disk ← follow disk dir
    if let .ok (place, .directory) := disk.find dir then
      let p := name :: place
      if ← isScript p then
        disk := disk.put p (.file (contentOf (← IO.FS.readBinFile (spelled p))) true)
  return disk

/-- The disk with all that the command will look at. -/
def prepare (dirs : List Path) (args : List String) : IO Disk := do
  let mut disk ← fetchScripts (← start) dirs ExternalEncoder.default.program.chars
  if let some p := CommandLine.value? "--config" args then
    disk ← follow disk (.ofString p)
  match (CommandLine.settings disk args : Except ArgumentError (Settings Double)) with
  | .error _ => return disk
  | .ok s =>
    disk ← enter disk s.inputDir
    disk ← enter disk s.framesDir
    follow disk (s.saveFile.withExtension ['g', 'i', 'f'])

/-- Writes back what has changed from one disk to another. -/
def writeBack (before after : Disk) : IO Unit := do
  for (p, n) in before.entries do
    if (after.node? p).isNone && (← isThere p) then
      if n = .directory then IO.FS.removeDirAll (spelled p) else IO.FS.removeFile (spelled p)
  for (p, n) in after.entries do
    if before.node? p ≠ some n then
      match n with
      | .directory => IO.FS.createDirAll (spelled p)
      | .file c _ => IO.FS.writeBinFile (spelled p) (bytesOf c)
      | .fullDevice | .nullDevice => pure ()

end Program

end Starfilm

/-- Runs the command, prints its report and gives its exit code. -/
def main (args : List String) : IO UInt32 := do
  let dirs ← Starfilm.Program.searchPath
  let before ← Starfilm.Program.prepare dirs args
  let launch := Starfilm.Shell.launch dirs (Starfilm.Program.hasTools dirs)
  let (report, after) := Starfilm.Command.run Starfilm.Double Starfilm.Single launch args before
  Starfilm.Program.writeBack before after
  IO.print report.output
  for cause in report.causes do IO.eprintln cause
  return report.code.toUInt32
