import TimingCharts.Image

/-!
# Bytes of image files

A blank canvas in each of the image formats. One bit, or one short code, is enough for a white
pixel or block, so the files are small.
-/

namespace TimingCharts.Image

/-- A number in `count` bytes, the most significant first. -/
def bigEndian (count n : Nat) : List UInt8 :=
  ((List.range count).map fun i => UInt8.ofNat (n / Nat.pow 256 i)).reverse

/-- A number in `count` bytes, the least significant first. -/
def littleEndian (count n : Nat) : List UInt8 :=
  (List.range count).map fun i => UInt8.ofNat (n / Nat.pow 256 i)

def crc32 (bytes : List UInt8) : UInt32 :=
  let shift (crc : UInt32) : UInt32 :=
    if crc % 2 = 1 then (crc >>> 1) ^^^ 0xEDB88320 else crc >>> 1
  let add (crc : UInt32) (b : UInt8) : UInt32 :=
    (List.range 8).foldl (fun crc _ => shift crc) (crc ^^^ b.toUInt32)
  bytes.foldl add 0xFFFFFFFF ^^^ 0xFFFFFFFF

def adler32 (bytes : List UInt8) : Nat :=
  let (a, b) := bytes.foldl (fun (a, b) x =>
    let a := (a + x.toNat) % 65521
    (a, (b + a) % 65521)) (1, 0)
  b * 65536 + a

namespace Png

def signature : List UInt8 := [0x89, 0x50, 0x4E, 0x47, 0x0D, 0x0A, 0x1A, 0x0A]

def chunk (kind : String) (data : List UInt8) : List UInt8 :=
  let body := kind.toUTF8.toList ++ data
  bigEndian 4 data.length ++ body ++ bigEndian 4 (crc32 body).toNat

/-- Blocks that hold bytes as they are, at most `count` of them. -/
def storedBlocks : Nat → List UInt8 → List UInt8
  | 0, _ => []
  | count + 1, data =>
    let part := data.take 65535
    let rest := data.drop 65535
    (if rest.isEmpty then 1 else 0) :: littleEndian 2 part.length ++
      littleEndian 2 (65535 - part.length) ++ part ++
      if rest.isEmpty then [] else storedBlocks count rest

/-- White rows of one bit a pixel, each after the byte that says it is unfiltered. -/
def encode (width height : Nat) : List UInt8 :=
  let row := 0 :: List.replicate ((width + 7) / 8) 0xFF
  let data := (List.replicate height row).flatten
  let stream := [0x78, 0x01] ++ storedBlocks (data.length / 65535 + 1) data ++
    bigEndian 4 (adler32 data)
  signature ++
    chunk "IHDR" (bigEndian 4 width ++ bigEndian 4 height ++ [1, 0, 0, 0, 0]) ++
    chunk "IDAT" stream ++ chunk "IEND" []

end Png

namespace Bmp

/-- White rows of one bit a pixel, filled up to a multiple of four bytes. -/
def encode (width height : Nat) : List UInt8 :=
  let data := List.replicate ((width + 31) / 32 * 4 * height) 0xFF
  let offset := 14 + 40 + 8
  [0x42, 0x4D] ++ littleEndian 4 (offset + data.length) ++ littleEndian 4 0 ++
    littleEndian 4 offset ++ littleEndian 4 40 ++ littleEndian 4 width ++ littleEndian 4 height ++
    littleEndian 2 1 ++ littleEndian 2 1 ++ littleEndian 4 0 ++ littleEndian 4 data.length ++
    littleEndian 4 2835 ++ littleEndian 4 2835 ++ littleEndian 4 2 ++ littleEndian 4 0 ++
    [0, 0, 0, 0, 0xFF, 0xFF, 0xFF, 0] ++ data

end Bmp

namespace Jpeg

def segment (marker : UInt8) (data : List UInt8) : List UInt8 :=
  [0xFF, marker] ++ bigEndian 2 (data.length + 2) ++ data

/-- The code table with the given symbols of one and two bits. -/
def codeTable (kind : UInt8) (one two : List UInt8) : List UInt8 :=
  segment 0xC4 (kind :: UInt8.ofNat one.length :: UInt8.ofNat two.length ::
    List.replicate 14 0 ++ one ++ two)

/-- White blocks: the first sets the level with the bits `10 1111111 0`, and `00` repeats it.
The last byte is filled up with ones. -/
def blocks (count : Nat) : List UInt8 :=
  let zeros := 2 * (count - 1)
  if zeros ≤ 6 then [0xBF, UInt8.ofNat (0x80 + Nat.pow 2 (6 - zeros) - 1)]
  else
    let more := zeros - 6
    [0xBF, 0x80] ++ List.replicate (more / 8) 0 ++
      if more % 8 = 0 then [] else [UInt8.ofNat (Nat.pow 2 (8 - more % 8) - 1)]

def encode (width height : Nat) : List UInt8 :=
  [0xFF, 0xD8] ++
    segment 0xDB (0 :: List.replicate 64 8) ++
    segment 0xC0 ([8] ++ bigEndian 2 height ++ bigEndian 2 width ++ [1, 1, 0x11, 0]) ++
    codeTable 0x00 [0] [7] ++ codeTable 0x10 [0] [] ++
    segment 0xDA [1, 1, 0x00, 0, 63, 0] ++
    blocks ((width + 7) / 8 * ((height + 7) / 8)) ++ [0xFF, 0xD9]

end Jpeg

def encode (image : Image) : List UInt8 :=
  let width := image.width.toNat
  let height := image.height.toNat
  match image.format with
  | .png => Png.encode width height
  | .jpeg => Jpeg.encode width height
  | .bmp => Bmp.encode width height

end TimingCharts.Image
