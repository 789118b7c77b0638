import CurvePlot.Output.Raster

/-!
# Pictures as PNG files

A file is a signature followed by chunks: the header with the size, the pixels, and an empty closing
chunk. Pixels have eight bits for each of their three colours, are not interlaced, and are stored
without compression. Numbers are written with their greatest byte first.
-/

namespace CurvePlot.Png

/-- The eight bytes that open a file. -/
def signature : List UInt8 :=
  [137, 80, 78, 71, 13, 10, 26, 10]

/-- A word by its four bytes. -/
def wordBytes (n : UInt32) : List UInt8 :=
  [(n >>> 24).toUInt8, (n >>> 16).toUInt8, (n >>> 8).toUInt8, n.toUInt8]

/-- The word of four bytes. -/
def wordOf (a b c d : UInt8) : UInt32 :=
  (a.toUInt32 <<< 24) ||| (b.toUInt32 <<< 16) ||| (c.toUInt32 <<< 8) ||| d.toUInt32

/-- What the header of a file says. -/
structure Header where
  /-- The number of columns. -/
  width : UInt32
  /-- The number of rows. -/
  height : UInt32
  /-- The number of bits of a colour. -/
  bitDepth : UInt8
  /-- How pixels are given; 2 is by their red, green and blue parts. -/
  colourType : UInt8
deriving DecidableEq, Repr

/-- The header of a picture's file. -/
def Header.ofPicture (p : Picture) : Header :=
  ⟨p.width, p.height, 8, 2⟩

/-- The content of the header chunk: after the size and the form of the pixels come the methods of
compression, filtering and interlacing. -/
def Header.bytes (h : Header) : List UInt8 :=
  wordBytes h.width ++ (wordBytes h.height ++ [h.bitDepth, h.colourType, 0, 0, 0])

/-- The header that a file opens with, behind its signature. -/
def Header.ofFile? (file : List UInt8) : Option Header :=
  match file.take 8 == signature, file.drop 16 with
  | true, w3 :: w2 :: w1 :: w0 :: h3 :: h2 :: h1 :: h0 :: depth :: colour :: _ =>
    some ⟨wordOf w3 w2 w1 w0, wordOf h3 h2 h1 h0, depth, colour⟩
  | _, _ => none

/-- One bit of the cyclic redundancy check. -/
def crcShift (crc : UInt32) : UInt32 :=
  if crc &&& 1 == 1 then (crc >>> 1) ^^^ 0xEDB88320 else crc >>> 1

/-- One byte of the cyclic redundancy check. -/
def crcByte (crc : UInt32) (b : UInt8) : UInt32 :=
  let c := crc ^^^ b.toUInt32
  crcShift (crcShift (crcShift (crcShift (crcShift (crcShift (crcShift (crcShift c)))))))

/-- The cyclic redundancy check of a chunk's kind and content. -/
def crc (kind : List UInt8) (content : ByteArray) : UInt32 :=
  content.foldl crcByte (kind.foldl crcByte 0xFFFFFFFF) ^^^ 0xFFFFFFFF

/-- A file with further bytes. -/
def append (file : ByteArray) (bytes : List UInt8) : ByteArray :=
  bytes.foldl ByteArray.push file

/-- A file with a chunk: the length and kind of its content, the content, and its check. -/
def appendChunk (file : ByteArray) (kind : List UInt8) (content : ByteArray) : ByteArray :=
  let opened := append file (wordBytes (UInt32.ofNat content.size) ++ kind)
  append (opened ++ content) (wordBytes (crc kind content))

/-- The rows of a raster, each behind a byte that names its filter, which is none. -/
def rows (r : Raster) : ByteArray :=
  r.height.fold
    (fun y _ bytes => bytes.push 0 ++ r.bytes.extract (3 * r.width * y) (3 * r.width * (y + 1)))
    ByteArray.empty

/-- The two sums of the check that closes stored data. -/
def adlerSums (data : ByteArray) : UInt32 × UInt32 :=
  data.foldl
    (fun (low, high) b =>
      let next := (low + b.toUInt32) % 65521
      (next, (high + next) % 65521))
    (1, 0)

/-- The most bytes of a stored block. -/
def blockSize : Nat := 65535

/-- A block of stored data: whether it is the last, its length twice, and its bytes. -/
def appendBlock (file : ByteArray) (last : Bool) (block : ByteArray) : ByteArray :=
  let low := UInt8.ofNat (block.size % 256)
  let high := UInt8.ofNat (block.size / 256)
  append file [if last then 1 else 0, low, high, 255 - low, 255 - high] ++ block

/-- Data stored in blocks without compression, with its check. -/
def stored (data : ByteArray) : ByteArray :=
  let count := max 1 ((data.size + blockSize - 1) / blockSize)
  let blocks := count.fold
    (fun i _ file => appendBlock file (i + 1 == count)
      (data.extract (blockSize * i) (blockSize * (i + 1))))
    (append ByteArray.empty [0x78, 0x01])
  let (low, high) := adlerSums data
  append blocks (wordBytes ((high <<< 16) ||| low))

/-- The kinds of chunks: header, pixels and end. -/
def headerKind : List UInt8 := [73, 72, 68, 82]

/-- The kind of the chunk with the pixels. -/
def pixelsKind : List UInt8 := [73, 68, 65, 84]

/-- The kind of the closing chunk. -/
def endKind : List UInt8 := [73, 69, 78, 68]

/-- The signature and the header chunk. -/
def opening (h : Header) : ByteArray :=
  appendChunk (append ByteArray.empty signature) headerKind (append ByteArray.empty h.bytes)

/-- The file of a picture. -/
def file (p : Picture) : ByteArray :=
  let withPixels := appendChunk (opening (.ofPicture p)) pixelsKind (stored (rows (.ofPicture p)))
  appendChunk withPixels endKind ByteArray.empty

end CurvePlot.Png
