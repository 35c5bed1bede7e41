import Starfilm.Caption
import Starfilm.Disk.Path

/-!
# The index of the frames

The index is a table of comma-separated values: a header and then a line for each frame. A text
that holds a comma, a quote or a line end is put in quotes, and its own quotes are doubled. Numbers
are written as they are.
-/

namespace Starfilm

/-- A rendered frame with its file and its caption. -/
structure FrameRecord (F : Type) where
  file : Path
  frame : Frame F
  caption : Caption

namespace FrameIndex

/-- A field in quotes, if it needs them. -/
def quote (field : List Char) : List Char :=
  if field.any fun c => c = ',' || c = '"' || c = '\n' then
    '"' :: field.flatMap (fun c => if c = '"' then ['"', '"'] else [c]) ++ ['"']
  else field

/-- Fields with commas between them, and a line end. -/
def line (fields : List (List Char)) : List Char := List.intercalate [','] fields ++ ['\n']

/-- What the columns are called. -/
def columns : List String :=
  ["frame", "file", "time_gyr", "disk", "bulge", "new_stars", "new_star_mass", "time_label",
    "count_label", "view_label"]

variable {F : Type} [DecimalText F]

/-- What the record in a place is written as, field by field. -/
def fields (i : Nat) (r : FrameRecord F) : List (List Char) :=
  [(toString i).toList, quote (r.file.fileName?.getD []),
    (DecimalText.shortest r.frame.time).toList, (toString r.frame.disk.length).toList,
    (toString r.frame.bulge.length).toList, (toString r.frame.newStarCount).toList,
    (DecimalText.shortest r.frame.newStarMass).toList, quote r.caption.time.toList,
    quote r.caption.newStars.toList, quote r.caption.view.toList]

/-- The lines of records, the first of which is in place `i`. -/
def lines : Nat → List (FrameRecord F) → List Char
  | _, [] => []
  | i, r :: rs => line (fields i r) ++ lines (i + 1) rs

/-- The text of the index. -/
def text (records : List (FrameRecord F)) : String :=
  String.ofList (line (columns.map String.toList) ++ lines 0 records)

end FrameIndex

end Starfilm
