import Starfilm.Decimal.Text
import Starfilm.Film

/-!
# Films by an external encoder

The external encoder is a program. It is told where the frames are by a pattern of their names in
the directory of the first one, and how many there are; whether it has made the film is told by how
it ends.
-/

namespace Starfilm

/-- How a program ends. -/
inductive ExitStatus where
  | exited (code : Nat)
  | killed (signal : Nat)
  deriving DecidableEq, Repr

namespace ExitStatus

/-- The names of the signals, from the first. -/
def signalNames : List String :=
  ["SIGHUP", "SIGINT", "SIGQUIT", "SIGILL", "SIGTRAP", "SIGABRT", "SIGBUS", "SIGFPE", "SIGKILL",
    "SIGUSR1", "SIGSEGV", "SIGUSR2", "SIGPIPE", "SIGALRM", "SIGTERM", "SIGSTKFLT", "SIGCHLD",
    "SIGCONT", "SIGSTOP", "SIGTSTP", "SIGTTIN", "SIGTTOU", "SIGURG", "SIGXCPU", "SIGXFSZ",
    "SIGVTALRM", "SIGPROF", "SIGWINCH", "SIGIO", "SIGPWR", "SIGSYS"]

/-- The name of a signal. -/
def signalName (n : Nat) : String := if n = 0 then "" else signalNames.getD (n - 1) ""

/-- How a program ended, in words. -/
def message : ExitStatus → String
  | exited code => s!"exit status: {code}"
  | killed n => if signalName n = "" then s!"signal: {n}" else s!"signal: {n} ({signalName n})"

end ExitStatus

/-- A way to run programs, given by their path and their arguments. A program may not start. -/
abbrev Launcher := Path → List String → Disk → Except Disk.Fault ExitStatus × Disk

/-- An external encoder. -/
structure ExternalEncoder where
  program : Path
  /-- The pattern of the names of the frames. -/
  pattern : String
  codec : String

namespace ExternalEncoder

/-- The encoder and its settings, where nothing else is asked for. -/
def default : ExternalEncoder := ⟨.ofString "ffmpeg", "frame_%03d.png", "libx264"⟩

def name : String := "ffmpeg"

/-- The directory of the first frame, if there is a frame in a directory. -/
def framesDir? (frames : List Path) : Option Path := frames.head?.bind Path.parent?

/-- The arguments that ask for a film of so many frames. Its sides are even, since the format of its
pixels asks for that. -/
def arguments (e : ExternalEncoder) (dir : Path) (count : Nat) (output : Path) (fps : Nat) :
    List String :=
  ["-y", "-loglevel", "error", "-framerate", toString fps, "-i",
    (dir.join (.ofString e.pattern)).text, "-frames:v", toString count, "-vf",
    "scale=trunc(iw/2)*2:trunc(ih/2)*2", "-vcodec", e.codec, "-pix_fmt", "yuv420p", output.text]

/-- The assembler that runs the encoder. -/
def assembler (e : ExternalEncoder) (launch : Launcher) : Assembler where
  name := name
  assemble frames output fps := do
    let fail (reason : String) : OnDisk Path := throw (.encoding name reason)
    match framesDir? frames with
    | none => fail "no frames to encode"
    | some dir =>
      let (r, d) := launch e.program (e.arguments dir frames.length output fps) (← get)
      set d
      match r with
      | .error f => fail s!"could not run {e.program.text}: {f.message}"
      | .ok (.exited 0) => return output
      | .ok status => fail s!"exited with {status.message}"

end ExternalEncoder

end Starfilm
