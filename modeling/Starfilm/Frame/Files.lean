import Starfilm.Frame.Index
import Starfilm.Run

/-!
# The files of the frames

Frames are rendered into one directory, where frame `i` has the name `frame_i.png` with at least
three digits. What an earlier run left there under such names is removed first. Then the frames are
rendered one after another, and when all of them are there, the index is written beside them.
-/

namespace Starfilm

/-- A number with at least three digits. -/
def threeDigits (n : Nat) : List Char :=
  let ds := Decimal.digits n
  List.replicate (3 - ds.length) '0' ++ ds

/-- What the names of frames begin with. -/
def frameStart : List Char := ['f', 'r', 'a', 'm', 'e', '_']

/-- What the names of frames end with. -/
def frameEnd : List Char := ['.', 'p', 'n', 'g']

/-- The name of a frame's file. -/
def frameName (i : Nat) : Name := frameStart ++ threeDigits i ++ frameEnd

/-- Whether a file with this name is taken for a frame. -/
def isFrameName (n : Name) : Bool := frameStart.isPrefixOf n && frameEnd.isSuffixOf n

/-- The file of a frame. -/
def framePath (dir : Path) (i : Nat) : Path := dir.join ⟨frameName i⟩

/-- The file of the index. -/
def indexPath (dir : Path) : Path := dir.join (.ofString "frames.csv")

/-- A way to draw a frame into a file. -/
abbrev Renderer (F : Type) := FrameRequest F → Path → OnDisk Unit

/-- Makes a directory and its parents. -/
def makeDirectory (dir : Path) : OnDisk Unit := do
  let (r, d) := Disk.createDirectories dir (← get)
  set d
  match r with
  | .ok () => return ()
  | .error f => throw (.disk dir f.message)

/-- Removes the files among some names that are taken for frames. -/
def removeFrames (dir : Path) : List Name → OnDisk Unit
  | [] => return ()
  | n :: ns => do
    let path := dir.join ⟨n⟩
    if isFrameName n && (← get).isFile path then
      OnDisk.change path fun d => d.removeFile path
    removeFrames dir ns

/-- Makes the directory of the frames, without those of an earlier run. -/
def prepareFrames (dir : Path) : OnDisk Unit := do
  makeDirectory dir
  let names ← OnDisk.look dir fun d => d.list dir
  removeFrames dir names

variable {F : Type} [DecimalText F]

/-- What a renderer is given for a frame. -/
def frameRequest (mode : ViewMode F) (w : Window F) (i : Nat) (f : Frame F) : FrameRequest F :=
  ⟨i, f, w, .ofFrame mode f⟩

/-- Renders frames, the first of which is frame `i`. -/
def renderFrom (render : Renderer F) (mode : ViewMode F) (w : Window F) (dir : Path) :
    Nat → List (Frame F) → Run F (List (FrameRecord F))
  | _, [] => return []
  | i, f :: fs => do
    let path := framePath dir i
    let request := frameRequest mode w i f
    Run.record (.render request path)
    Run.onDisk (render request path)
    let rest ← renderFrom render mode w dir (i + 1) fs
    return ⟨path, f, request.caption⟩ :: rest

/-- Writes the index of some frames. -/
def writeIndex (path : Path) (records : List (FrameRecord F)) : OnDisk Unit :=
  OnDisk.change path fun d => d.write path (.text (FrameIndex.text records))

/-- Renders all frames of a run and writes their index; the files of the frames. -/
def renderFrames (render : Renderer F) (mode : ViewMode F) (dir : Path) (w : Window F)
    (frames : List (Frame F)) : Run F (List Path) := do
  Run.onDisk (prepareFrames dir)
  let records ← renderFrom render mode w dir 0 frames
  Run.record (.index (indexPath dir))
  Run.onDisk (writeIndex (indexPath dir) records)
  return records.map (·.file)

/-! ## Pictures as files -/

/-- Writes a picture. The file is made before the picture is looked at, and one without pixels has
no written form. -/
def saveImage (i : Image) (path : Path) : OnDisk Unit := do
  match (← get).write path (.text "") with
  | .error f => throw (.picture path f.message)
  | .ok emptied =>
    if i.width = 0 || i.height = 0 then
      set emptied
      throw (.picture path "a picture without pixels has no written form")
    else
      match emptied.write path (.picture i) with
      | .error f => throw (.picture path f.message)
      | .ok d => set d

/-- The renderer that draws frames as this look has them. -/
def Look.renderer {G : Type} [Arith F] [Arith G] (l : Look G) : Renderer F := fun request path => do
  let image ← l.draw request.window request.frame
  saveImage image path

end Starfilm
