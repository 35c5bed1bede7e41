import Starfilm.Raster.Animation
import Starfilm.Raster.Bytes
import Starfilm.Raster.Palette

/-!
# Animations as GIF files

Each still has its own table of colours. Its pixels are written as codes of nine bits, and the code
that clears the table comes so often that codes never grow longer.
-/

namespace Starfilm

namespace Gif

/-- The colours of an image, filled up to a full table. -/
def table (i : Image) : List Rgb :=
  let cs := ((Palette.colors paletteSize i.pixels).getD []).take paletteSize
  cs ++ List.replicate (paletteSize - cs.length) .black

/-- Bits that do not yet fill a byte, and the bytes that are filled. -/
structure Bits where
  bytes : ByteArray
  pending : Nat
  count : Nat

namespace Bits

/-- The bytes that pending bits fill. -/
def flush : Nat → Bits → Bits
  | 0, b => b
  | n + 1, b =>
    if b.count < 8 then b
    else flush n ⟨b.bytes.push b.pending.toUInt8, b.pending / 256, b.count - 8⟩

/-- Nine more bits. -/
def code (b : Bits) (c : Nat) : Bits :=
  flush 2 { b with pending := b.pending + c <<< b.count, count := b.count + 9 }

/-- All bytes, the last one filled up. -/
def finish (b : Bits) : ByteArray :=
  if b.count = 0 then b.bytes else b.bytes.push b.pending.toUInt8

end Bits

/-- The code that clears the decoder's table, and the one that ends the pixels. -/
def clear : Nat := 256

/-- See `clear`. -/
def stop : Nat := 257

/-- So many pixels are written between two clearings. -/
def interval : Nat := 250

/-- The codes of the pixels of an image. -/
def codes (i : Image) (colors : List Rgb) : ByteArray :=
  let (bits, _) := i.pixels.foldl
    (fun ((b, k) : Bits × Nat) c =>
      let b := if k % interval = 0 then b.code clear else b
      (b.code (colors.idxOf c % clear), k + 1))
    ((⟨.empty, 0, 0⟩ : Bits), 0)
  (bits.code stop).finish

/-- Data in blocks of at most two hundred and fifty-five bytes, and an empty one at the end. -/
def blocks (file data : ByteArray) : ByteArray :=
  let count := (data.size + 254) / 255
  ((List.range count).foldl
    (fun file k =>
      let part := data.extract (k * 255) ((k + 1) * 255)
      file.push part.size.toUInt8 ++ part) file).push 0

/-- A still behind what is written already. It is cleared away after its time. -/
def still (file : ByteArray) (s : Still) : ByteArray :=
  let colors := table s.image
  let control : List UInt8 := [0x21, 0xF9, 4, 8] ++ Bytes.little 2 (s.delay / 10) ++ [0, 0]
  let place := 0x2C :: Bytes.little 4 0 ++ Bytes.little 2 s.image.width ++
    Bytes.little 2 s.image.height ++ [0x87]
  let colorBytes := colors.flatMap fun c => [c.red, c.green, c.blue]
  blocks (Bytes.append file (control ++ place ++ colorBytes ++ [8])) (codes s.image colors)

/-- The file of an animation. -/
def encode (a : Animation) : ByteArray :=
  let (width, height) :=
    match a.stills with
    | s :: _ => (s.image.width, s.image.height)
    | [] => (0, 0)
  let header := Bytes.ofText "GIF89a" ++ Bytes.little 2 width ++ Bytes.little 2 height ++ [0, 0, 0]
  let looping : List UInt8 :=
    if a.forever then [0x21, 0xFF, 11] ++ Bytes.ofText "NETSCAPE2.0" ++ [3, 1, 0, 0, 0] else []
  (a.stills.foldl still (Bytes.append .empty (header ++ looping))).push 0x3B

end Gif

end Starfilm
