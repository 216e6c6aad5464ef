import DocExport.Media.Fetch

/-!
# Bitmaps as PNG files

A whiteboard is fetched as a bitmap and packaged as a PNG file.  The file is written in its
plainest form: eight bits for each of red, green, blue and opacity, no row filter, and the
pixel data in stored blocks inside a zlib stream.

* **Main results.** `Bitmap.toPng` writes the file of a bitmap or says why there is none, and
  `Bitmap.toPng_eq_ok_iff` says which bitmaps have one.
-/

namespace DocExport

/-- A picture: four bytes for each pixel, row after row. -/
structure Bitmap where
  width : Nat
  height : Nat
  rgba : ByteArray

namespace Png

/-! ## Numbers and checksums -/

/-- A number as four bytes, the most significant first. -/
def bigEndian32 (n : Nat) : ByteArray :=
  ⟨#[(n >>> 24).toUInt8, (n >>> 16).toUInt8, (n >>> 8).toUInt8, n.toUInt8]⟩

/-- A number as two bytes, the least significant first. -/
def littleEndian16 (n : Nat) : ByteArray := ⟨#[n.toUInt8, (n >>> 8).toUInt8]⟩

/-- One bit of the cyclic redundancy check. -/
def crcBit (r : UInt32) : UInt32 :=
  if r &&& 1 = 1 then (r >>> 1) ^^^ 0xEDB88320 else r >>> 1

/-- One byte of the cyclic redundancy check. -/
def crcByte (r : UInt32) (b : UInt8) : UInt32 :=
  crcBit (crcBit (crcBit (crcBit (crcBit (crcBit (crcBit (crcBit (r ^^^ b.toUInt32))))))))

/-- The checksum that closes a chunk. -/
def crc32 (bytes : ByteArray) : UInt32 := bytes.foldl crcByte 0xFFFFFFFF ^^^ 0xFFFFFFFF

/-- The checksum that closes a zlib stream. -/
def adler32 (bytes : ByteArray) : Nat :=
  let (a, b) := bytes.foldl
    (fun (sums : Nat × Nat) byte =>
      let a := (sums.1 + byte.toNat) % 65521
      (a, (sums.2 + a) % 65521))
    (1, 0)
  b * 65536 + a

/-! ## Streams and chunks -/

/-- The most bytes a stored block can hold. -/
def storedLimit : Nat := 65535

/-- Bytes as a sequence of stored blocks, the last one marked as such. -/
def stored (bytes : ByteArray) : ByteArray :=
  let count := max 1 ((bytes.size + storedLimit - 1) / storedLimit)
  (List.range count).foldl
    (fun out i =>
      let block := bytes.extract (i * storedLimit) ((i + 1) * storedLimit)
      let last : UInt8 := if i + 1 = count then 1 else 0
      out ++ ⟨#[last]⟩ ++ littleEndian16 block.size ++ littleEndian16 (storedLimit - block.size) ++
        block)
    ByteArray.empty

/-- Bytes as a zlib stream. -/
def zlib (bytes : ByteArray) : ByteArray :=
  ⟨#[0x78, 0x01]⟩ ++ stored bytes ++ bigEndian32 (adler32 bytes)

/-- A chunk of a file: its length, its name, its contents and their checksum. -/
def chunk (name : String) (contents : ByteArray) : ByteArray :=
  let named := name.toUTF8 ++ contents
  bigEndian32 contents.size ++ named ++ bigEndian32 (crc32 named).toNat

/-- The eight bytes every file begins with. -/
def signature : ByteArray := ⟨#[0x89, 0x50, 0x4E, 0x47, 0x0D, 0x0A, 0x1A, 0x0A]⟩

/-- The rows of a bitmap, each announced as unfiltered. -/
def scanlines (b : Bitmap) : ByteArray :=
  let stride := 4 * b.width
  (List.range b.height).foldl
    (fun out y => out ++ ⟨#[0]⟩ ++ b.rgba.extract (y * stride) ((y + 1) * stride))
    ByteArray.empty

/-- The file of a bitmap. -/
def file (b : Bitmap) : ByteArray :=
  signature ++
    chunk "IHDR" (bigEndian32 b.width ++ bigEndian32 b.height ++ ⟨#[8, 6, 0, 0, 0]⟩) ++
    chunk "IDAT" (zlib (scanlines b)) ++ chunk "IEND" ByteArray.empty

end Png

/-! ## Encoding -/

/-- A bitmap as a PNG file.  Its buffer has to cover all pixels, and what goes beyond them is
left out; a picture without width or height has no file. -/
def Bitmap.toPng (b : Bitmap) : Except FetchFault ByteArray :=
  if b.rgba.size < b.width * b.height * 4 then
    .error (.failed s!"pixel buffer does not match {b.width}x{b.height}")
  else if b.width = 0 then .error (.failed "Zero width not allowed")
  else if b.height = 0 then .error (.failed "Zero height not allowed")
  else .ok (Png.file b)

/-- A bitmap has a file exactly if it has width and height and its buffer covers all pixels. -/
theorem Bitmap.toPng_eq_ok_iff {b : Bitmap} {bytes : ByteArray} :
    b.toPng = .ok bytes ↔
      (0 < b.width ∧ 0 < b.height ∧ b.width * b.height * 4 ≤ b.rgba.size) ∧ bytes = Png.file b := by
  unfold Bitmap.toPng
  split
  · rename_i hshort
    simp [Nat.not_le_of_lt hshort]
  · rename_i hcovers
    have hcovers : b.width * b.height * 4 ≤ b.rgba.size := Nat.le_of_not_lt hcovers
    split
    · simp [*]
    · split
      · simp [*]
      · simp [*, Nat.pos_iff_ne_zero, eq_comm]

/-- What a whiteboard's own answer comes to: its picture as a file, or the report that there is
nothing on it. -/
def Bitmap.snapshot (answer : Except FetchFault (Option Bitmap)) : Except FetchFault ByteArray :=
  answer.bind fun
    | none => .error (.unavailable "whiteboard has no content")
    | some bitmap => bitmap.toPng

end DocExport
