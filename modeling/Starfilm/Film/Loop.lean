import Starfilm.Film
import Starfilm.Raster.Palette

/-!
# Films as looping pictures

A looping picture is written beside the film that was asked for, under the extension `gif`. Its
frames have at most two hundred and fifty-six colours each, and they are shown for whole hundredths
of a second. If a frame cannot be read, the file ends with the frames before it.
-/

namespace Starfilm

namespace LoopEncoder

def name : String := "gif"

/-- How long a frame is shown, in milliseconds. -/
def delay (fps : Nat) : Nat := 1000 / Max.max fps 1 / 10 * 10

/-- Sides are at most this long. -/
def maxSide : Nat := 65535

/-- The picture that content is, if a name with this extension may stand for it. -/
def picture? (extension : Option Name) (c : Content) : Option Image :=
  let lower := extension.map (·.map Char.toLower)
  match c with
  | .picture i =>
    if lower = some ['p', 'n', 'g'] || lower = some ['a', 'p', 'n', 'g'] then some i else none
  | .animation a =>
    if lower = some ['g', 'i', 'f'] then a.stills.head?.map (·.image) else none
  | _ => none

/-- The picture in a file. -/
def loadImage (path : Path) : OnDisk Image := do
  match (← get).content path with
  | .error f => throw (.picture path f.message)
  | .ok c =>
    match picture? path.extension? c with
    | some i => return i
    | none => throw (.picture path "not a picture")

/-- What a file holds after so many stills, the last first. -/
def content (stills : List Still) : Content :=
  if stills.isEmpty then .text "" else .animation ⟨stills.reverse, true⟩

/-- Adds the frames of some files to the stills in a file. -/
def addFrames (path : Path) (fps : Nat) : List Still → List Path → OnDisk Unit
  | _, [] => return ()
  | stills, f :: fs => do
    let image ← loadImage f
    if maxSide < image.width || maxSide < image.height then
      throw (.encoding name "The Image's dimensions are either too small or too large")
    let stills := ⟨delay fps, image.reduced⟩ :: stills
    OnDisk.change path fun d => d.write path (content stills)
    addFrames path fps stills fs

/-- The assembler of looping pictures. -/
def assembler : Assembler where
  name := name
  assemble frames output fps := do
    if frames.isEmpty then throw (.encoding name "no frames to encode")
    let path := output.withExtension ['g', 'i', 'f']
    OnDisk.change path fun d => d.write path (.text "")
    addFrames path fps [] frames
    return path

end LoopEncoder

end Starfilm
