import Starfilm.Json.Record
import Starfilm.Json.Text
import Starfilm.Settings

/-!
# Settings in JSON

Settings are a record whose field `bounds` is a record of its own. A view is an object tagged by its
`kind`, with two angles when it is tilted, or an array that begins with the tag.
-/

namespace Starfilm

open Json (Document Fault Field)

variable {F : Type} [Arith F]

namespace Framing

/-- The fields of framings. -/
def fields : List (Field F (Framing F)) := [
  { key := "lower_percentile"
    write := fun s => .ofNumber s.lowerPercentile
    read := fun d => d.number?.map fun x s => { s with lowerPercentile := x } },
  { key := "upper_percentile"
    write := fun s => .ofNumber s.upperPercentile
    read := fun d => d.number?.map fun x s => { s with upperPercentile := x } },
  { key := "padding"
    write := fun s => .ofNumber s.padding
    read := fun d => d.number?.map fun x s => { s with padding := x } },
  { key := "thin_axis_ratio"
    write := fun s => .ofNumber s.thinAxisRatio
    read := fun d => d.number?.map fun x s => { s with thinAxisRatio := x } },
  { key := "tilted_thin_axis"
    write := fun s => .bool s.tiltedThinAxis
    read := fun d => d.bool?.map fun b s => { s with tiltedThinAxis := b } }]

/-- A framing as JSON. -/
def toJson (s : Framing F) : Json F := Field.writeAll fields s

/-- The framing that a document makes of the default. -/
def ofDocument (d : Document F) : Except Fault (Framing F) := Json.readRecord fields default d

end Framing

namespace ViewMode

/-- The angles of a tilt, as the members of an object give them. -/
structure Angles (F : Type) where
  x : Option F
  z : Option F

/-- A view as JSON. -/
def toJson (m : ViewMode F) : Json F :=
  match m with
  | tilted x z =>
    .object [("kind", .text m.name), ("angle_x_deg", .ofNumber x), ("angle_z_deg", .ofNumber z)]
  | _ => .object [("kind", .text m.name)]

/-- The kind that a document names. -/
def kind? (d : Document F) : Except Fault ViewKind := do
  let s ← d.text?
  match ViewKind.ofName? s with
  | some k => .ok k
  | none => .error .mismatched

/-- The tag among the members of an object, and the other members. The tag is looked at as soon as
it is met; the others are kept. -/
def untag : Option ViewKind → List (Except Fault String × Document F) →
    Except Fault (Option ViewKind × List (String × Json F))
  | tag, [] => .ok (tag, [])
  | tag, (key, d) :: rest => do
    let key ← key
    if key = "kind" then
      if tag.isSome then .error .mismatched
      else
        let k ← kind? d
        untag (some k) rest
    else
      let v ← d.value
      let (tag, others) ← untag tag rest
      .ok (tag, (key, v) :: others)

/-- An angle that is given for the first time. -/
def angle (known : Option F) (v : Json F) : Except Fault (Option F) :=
  match known, v.number? with
  | none, some x => .ok (some x)
  | _, _ => .error .mismatched

/-- The angles among the members of an object. -/
def angles : Angles F → List (String × Json F) → Except Fault (Angles F)
  | a, [] => .ok a
  | a, (key, v) :: rest => do
    if key = "angle_x_deg" then
      let x ← angle a.x v
      angles { a with x } rest
    else if key = "angle_z_deg" then
      let z ← angle a.z v
      angles { a with z } rest
    else angles a rest

/-- The view of a kind with the angles that members give. -/
def ofMembers (members : List (String × Json F)) : ViewKind → Except Fault (ViewMode F)
  | .faceOn => .ok faceOn
  | .edgeOn => .ok edgeOn
  | .tilted => do
    match ← angles ⟨none, none⟩ members with
    | ⟨some x, some z⟩ => .ok (tilted x z)
    | _ => .error .mismatched

/-- The view of a kind with the angles that items give. -/
def ofItems : List (Json F) → ViewKind → Except Fault (ViewMode F)
  | [], .faceOn => .ok faceOn
  | [], .edgeOn => .ok edgeOn
  | [x, z], .tilted =>
    match x.number?, z.number? with
    | some x, some z => .ok (tilted x z)
    | _, _ => .error .mismatched
  | _, _ => .error .mismatched

/-- The view that a document gives. -/
def ofDocument : Document F → Except Fault (ViewMode F)
  | .object members stop => do
    let (tag, others) ← untag none members
    Json.stopAt stop
    match tag with
    | some k => ofMembers others k
    | none => .error .mismatched
  | .array (d :: items) stop => do
    let k ← kind? d
    let others ← Document.valueItems items
    Json.stopAt stop
    ofItems others k
  | .array [] stop => do
    Json.stopAt stop
    .error .mismatched
  | .broken r _ => .error r
  | _ => .error .mismatched

end ViewMode

namespace Settings

/-- A count, or `null`. -/
def countJson : Option UInt32 → Json F
  | some n => .int n.toNat
  | none => .null

/-- The fields of settings. -/
def fields : List (Field F (Settings F)) := [
  { key := "input_dir"
    write := fun s => .text s.inputDir.text
    read := fun d => d.text?.map fun t s => { s with inputDir := .ofString t } },
  { key := "snapshot_prefix"
    write := fun s => .text s.nameStart
    read := fun d => d.text?.map fun t s => { s with nameStart := t } },
  { key := "snapshot_extension"
    write := fun s => .text s.nameExtension
    read := fun d => d.text?.map fun t s => { s with nameExtension := t } },
  { key := "frames_dir"
    write := fun s => .text s.framesDir.text
    read := fun d => d.text?.map fun t s => { s with framesDir := .ofString t } },
  { key := "save_file"
    write := fun s => .text s.saveFile.text
    read := fun d => d.text?.map fun t s => { s with saveFile := .ofString t } },
  { key := "fps"
    write := fun s => .int s.fps.toNat
    read := fun d => d.count?.map fun n s => { s with fps := n } },
  { key := "mode"
    write := fun s => s.mode.toJson
    read := fun d => (ViewMode.ofDocument d).map fun m s => { s with mode := m } },
  { key := "width"
    write := fun s => countJson s.width
    read := fun d => (d.optional Document.count?).map fun n s => { s with width := n } },
  { key := "height"
    write := fun s => countJson s.height
    read := fun d => (d.optional Document.count?).map fun n s => { s with height := n } },
  { key := "bounds"
    write := fun s => s.framing.toJson
    read := fun d => (Framing.ofDocument d).map fun b s => { s with framing := b } }]

/-- Settings as JSON. -/
def toJson (s : Settings F) : Json F := Field.writeAll fields s

/-- The settings that a document makes of the default. -/
def ofDocument (d : Document F) : Except Fault (Settings F) := Json.readRecord fields default d

/-- The settings that a value gives. -/
def ofJson (v : Json F) : Except Fault (Settings F) := ofDocument (.ofJson v)

/-- The settings that a text gives. Something after them is a fault only when they can be read. -/
def ofText (text : String) : Except Fault (Settings F) := do
  let (d, trailing) := Document.ofChars text.toList
  let s ← ofDocument (d.within 0)
  Json.stopAt trailing
  .ok s

end Settings

end Starfilm
