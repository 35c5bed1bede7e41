import Starfilm.Raster.Bytes
import Starfilm.Raster.Image

/-!
# Pictures as PNG files

A PNG file is a signature and chunks, each with its length and its check. The pixels are written row
by row without a filter, and their stream is stored, not compressed.
-/

namespace Starfilm

namespace Png

def signature : List UInt8 := [0x89, 0x50, 0x4E, 0x47, 0x0D, 0x0A, 0x1A, 0x0A]

/-- A chunk behind what is written already. -/
def chunk (file : ByteArray) (kind : String) (data : ByteArray) : ByteArray :=
  let body := Bytes.append .empty (Bytes.ofText kind) ++ data
  let file := Bytes.append file (Bytes.big 4 data.size) ++ body
  Bytes.append file (Bytes.big 4 (Bytes.crc body).toNat)

/-- Width, height, eight bits a channel, three channels. -/
def header (i : Image) : ByteArray :=
  Bytes.append .empty (Bytes.big 4 i.width ++ Bytes.big 4 i.height ++ [8, 2, 0, 0, 0])

/-- The rows of an image, each after a byte that says that there is no filter. -/
def rows (i : Image) : ByteArray :=
  (List.range i.height).foldl
    (fun bytes y =>
      (List.range i.width).foldl
        (fun bytes x =>
          let c := i.pixel x y
          ((bytes.push c.red).push c.green).push c.blue)
        (bytes.push 0))
    .empty

/-- A block of a stream has at most this many bytes. -/
def maxBlock : Nat := 65535

/-- Data as a stream of stored blocks. -/
def stored (data : ByteArray) : ByteArray :=
  let count := Max.max ((data.size + maxBlock - 1) / maxBlock) 1
  let blocks := (List.range count).foldl
    (fun stream k =>
      let part := data.extract (k * maxBlock) ((k + 1) * maxBlock)
      let isLast : UInt8 := if k + 1 = count then 1 else 0
      Bytes.append stream
        (isLast :: Bytes.little 2 part.size ++ Bytes.little 2 (maxBlock - part.size)) ++ part)
    (Bytes.append .empty [0x78, 0x01])
  Bytes.append blocks (Bytes.big 4 (Bytes.adler data).toNat)

/-- The file of an image. -/
def encode (i : Image) : ByteArray :=
  let file := chunk (Bytes.append .empty signature) "IHDR" (header i)
  chunk (chunk file "IDAT" (stored (rows i))) "IEND" .empty

end Png

end Starfilm
