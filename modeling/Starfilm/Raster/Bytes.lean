/-!
# Bytes

Numbers as bytes, and the two sums that go with compressed data.
-/

namespace Starfilm

namespace Bytes

/-- The lowest `width` bytes of a number, the lowest one first. -/
def little : Nat → Nat → List UInt8
  | 0, _ => []
  | width + 1, n => n.toUInt8 :: little width (n / 256)

/-- The lowest `width` bytes of a number, the highest one first. -/
def big (width n : Nat) : List UInt8 := (little width n).reverse

/-- The bytes of a text. -/
def ofText (s : String) : List UInt8 := s.toUTF8.toList

/-- Bytes behind others. -/
def append (bytes : ByteArray) (more : List UInt8) : ByteArray := more.foldl ByteArray.push bytes

/-- A remainder moved by one bit. -/
def crcBit (c : UInt32) : UInt32 :=
  if c &&& 1 = 1 then (c >>> 1) ^^^ 0xEDB88320 else c >>> 1

/-- A remainder with one more byte. -/
def crcByte (c : UInt32) (b : UInt8) : UInt32 :=
  Nat.repeat crcBit 8 (c ^^^ b.toUInt32)

/-- The cyclic redundancy check of some bytes. -/
def crc (bytes : ByteArray) : UInt32 := bytes.foldl crcByte 0xFFFFFFFF ^^^ 0xFFFFFFFF

/-- The sum of some bytes and the sum of its values on the way, each modulo `65521`. -/
def adler (bytes : ByteArray) : UInt32 :=
  let (a, b) := bytes.foldl
    (fun ((a, b) : UInt32 × UInt32) x =>
      let a := (a + x.toUInt32) % 65521
      (a, (b + a) % 65521)) (1, 0)
  b * 65536 + a

end Bytes

end Starfilm
