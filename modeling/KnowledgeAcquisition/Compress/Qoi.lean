import KnowledgeAcquisition.Library.Loop
import Mathlib.Data.List.Basic

/-!
# QOI images

`compressToQoiRuntime` of `QOI4MCU.cpp` and `QOI.cpp` and `decompressQoiToBuffer` of `qoi_to_gst.cpp`, in
`laboratory/cpp/Solution/Compress`. The decoder takes a compressed array of any size. An access outside an array
is a fault, `none`.
-/

namespace KnowledgeAcquisition.Compress
open Library

structure QoiPixel where
  r : UInt8 := 0
  g : UInt8 := 0
  b : UInt8 := 0
  a : UInt8 := 255
  deriving DecidableEq, Repr

namespace QoiPixel

def hash (px : QoiPixel) : Nat := (px.r.toNat * 3 + px.g.toNat * 5 + px.b.toNat * 7 + px.a.toNat * 11) % 64

theorem hash_lt (px : QoiPixel) : px.hash < 64 := Nat.mod_lt _ (Nat.zero_lt_succ 63)

end QoiPixel

abbrev ColorHistory := Vector QoiPixel 64

namespace ColorHistory

def slot (colorHistory : ColorHistory) (px : QoiPixel) : QoiPixel := colorHistory.get ⟨px.hash, px.hash_lt⟩

def store (colorHistory : ColorHistory) (px : QoiPixel) : ColorHistory := colorHistory.set px.hash px px.hash_lt

/-- What value-initialisation makes of the table: opaque black, the default of the pixel. -/
def initial : ColorHistory := Vector.replicate 64 {}

end ColorHistory

structure Encoder where
  out : List UInt8
  colorHistory : ColorHistory := ColorHistory.initial
  prevPixel : QoiPixel := {}
  runLength : Nat := 0
  deriving DecidableEq

def int8 (value : Int) : Int := (value + 128) % 256 - 128

def delta (curr prev : UInt8) : Int := int8 (curr.toNat - prev.toNat)

def opDiff (dr dg db : UInt8) : UInt8 := (0x40 : UInt8) ||| (dr <<< 4) ||| (dg <<< 2) ||| db

def opLuma (dg : UInt8) : UInt8 := 0x80 ||| dg

def lumaRest (drDg dbDg : UInt8) : UInt8 := (drDg <<< 4) ||| dbDg

def encodeMiss (prev curr : QoiPixel) : List UInt8 :=
  if curr.a = prev.a then
    let dr := delta curr.r prev.r
    let dg := delta curr.g prev.g
    let db := delta curr.b prev.b
    let drDg := int8 (dr - dg)
    let dbDg := int8 (db - dg)
    if dr ≥ -2 ∧ dr ≤ 1 ∧ dg ≥ -2 ∧ dg ≤ 1 ∧ db ≥ -2 ∧ db ≤ 1 then
      [opDiff (UInt8.ofInt (dr + 2)) (UInt8.ofInt (dg + 2)) (UInt8.ofInt (db + 2))]
    else if dg ≥ -32 ∧ dg ≤ 31 ∧ drDg ≥ -8 ∧ drDg ≤ 7 ∧ dbDg ≥ -8 ∧ dbDg ≤ 7 then
      [opLuma (UInt8.ofInt (dg + 32)), lumaRest (UInt8.ofInt (drDg + 8)) (UInt8.ofInt (dbDg + 8))]
    else [0xFE, curr.r, curr.g, curr.b]
  else [0xFF, curr.r, curr.g, curr.b, curr.a]

namespace Encoder

def push (s : Encoder) (bytes : List UInt8) : Encoder := { s with out := s.out ++ bytes }

def runByte (runLength : Nat) : UInt8 := 0xC0 ||| UInt8.ofNat (runLength - 1)

def flushRun (s : Encoder) : Encoder :=
  if 0 < s.runLength then { s.push [runByte s.runLength] with runLength := 0 } else s

def encodePixel (s : Encoder) (currPixel : QoiPixel) : Encoder :=
  if currPixel = s.prevPixel then
    if s.runLength + 1 = 62 then { s.push [runByte 62] with runLength := 0 }
    else { s with runLength := s.runLength + 1 }
  else
    let s := s.flushRun
    let s :=
      if s.colorHistory.slot currPixel = currPixel then s.push [0x00 ||| UInt8.ofNat currPixel.hash]
      else { s.push (encodeMiss s.prevPixel currPixel) with colorHistory := s.colorHistory.store currPixel }
    { s with prevPixel := currPixel }

end Encoder

/-- The arguments of `compressToQoiRuntime`: `w` and `h` are of type `int`, and the buffer has the size that
they say. -/
structure Image where
  w : Nat
  h : Nat
  channels : Nat
  rawPixels : List UInt8
  wInt : w ≤ 2147483647
  hInt : h ≤ 2147483647
  rgb : channels = 3 ∨ channels = 4
  size : rawPixels.length = w * h * channels

namespace Image

/-- The pixel loaded in turn `px`. Without an alpha channel `currPixel.a` stays what it was; at the start of a
turn `currPixel` is `prevPixel`. -/
def load (image : Image) (prevPixel : QoiPixel) (px : Nat) : QoiPixel where
  r := image.rawPixels.getD (px * image.channels + 0) 0
  g := image.rawPixels.getD (px * image.channels + 1) 0
  b := image.rawPixels.getD (px * image.channels + 2) 0
  a := if image.channels = 4 then image.rawPixels.getD (px * image.channels + 3) 0 else prevPixel.a

def bigEndian (number : Nat) : List UInt8 :=
  [UInt8.ofNat (number >>> 24), UInt8.ofNat (number >>> 16), UInt8.ofNat (number >>> 8), UInt8.ofNat number]

def magic : List UInt8 := [0x71, 0x6F, 0x69, 0x66]

def header (image : Image) : List UInt8 :=
  magic ++ bigEndian image.w ++ bigEndian image.h ++ [UInt8.ofNat image.channels, 0]

end Image

def endMarker : List UInt8 := [0, 0, 0, 0, 0, 0, 0, 1]

def compressToQoiRuntime (image : Image) : List UInt8 :=
  let s := (List.range (image.w * image.h)).foldl (fun s px => s.encodePixel (image.load s.prevPixel px))
    ({ out := image.header } : Encoder)
  s.flushRun.out ++ endMarker

/-! ### Any number of channels

`main` passes on the channels that `stbi_load` reports. Here every read of the pixel buffer is checked. -/

structure LoadedImage where
  w : Nat
  h : Nat
  channels : Nat
  rawPixels : List UInt8
  wInt : 1 ≤ w ∧ w ≤ 2147483647
  hInt : 1 ≤ h ∧ h ≤ 2147483647
  reported : 1 ≤ channels ∧ channels ≤ 4
  size : rawPixels.length = w * h * channels

namespace LoadedImage

def header (image : LoadedImage) : List UInt8 :=
  Image.magic ++ Image.bigEndian image.w ++ Image.bigEndian image.h ++ [UInt8.ofNat image.channels, 0]

def load? (image : LoadedImage) (prevPixel : QoiPixel) (px : Nat) : Option QoiPixel := do
  let offset := px * image.channels
  let r ← image.rawPixels[offset + 0]?
  let g ← image.rawPixels[offset + 1]?
  let b ← image.rawPixels[offset + 2]?
  let a ← if image.channels = 4 then image.rawPixels[offset + 3]? else some prevPixel.a
  some { r, g, b, a }

end LoadedImage

def compressToQoiRuntime? (image : LoadedImage) : Option (List UInt8) := do
  let s ← (List.range (image.w * image.h)).foldlM (fun s px => (image.load? s.prevPixel px).map s.encodePixel)
    ({ out := image.header } : Encoder)
  some (s.flushRun.out ++ endMarker)

/-! ## The decoder -/

/-- The state of `decompressQoiToBuffer`. The compressed array is kept from `byteIdx` on and the output buffer up
to `outIdx`. The pixel register at the time of each pixel written is kept too. -/
structure Decoder where
  unread : List UInt8
  colorHistory : ColorHistory := ColorHistory.initial
  px : QoiPixel := {}
  pixelCount : Nat := 0
  rawPixels : List UInt8 := []
  registers : List QoiPixel := []
  deriving DecidableEq

def QoiPixel.addDiff (px : QoiPixel) (b1 : UInt8) : QoiPixel :=
  let dr : UInt8 := (b1 >>> 4) &&& 0x03
  let dg : UInt8 := (b1 >>> 2) &&& 0x03
  let db : UInt8 := b1 &&& 0x03
  { px with r := px.r + (dr - 2), g := px.g + (dg - 2), b := px.b + (db - 2) }

def QoiPixel.addLuma (px : QoiPixel) (b1 b2 : UInt8) : QoiPixel :=
  let low : UInt8 := b1 &&& 0x3F
  let drDg : UInt8 := (b2 >>> 4) &&& 0x0F
  let dbDg : UInt8 := b2 &&& 0x0F
  let dg := low - 32
  { px with r := px.r + (dg - 8 + drDg), g := px.g + dg, b := px.b + (dg - 8 + dbDg) }

namespace Decoder

def readByte (s : Decoder) : Option (UInt8 × Decoder) :=
  match s.unread with
  | [] => none
  | byte :: unread => some (byte, { s with unread })

def writePixel (capacity : Nat) (s : Decoder) : Option Decoder :=
  if s.rawPixels.length + 4 ≤ capacity then
    some { s with rawPixels := s.rawPixels ++ [s.px.r, s.px.g, s.px.b, 0xFF], pixelCount := s.pixelCount + 1
                  registers := s.registers ++ [s.px] }
  else none

def writeRun (capacity : Nat) : Nat → Decoder → Option Decoder
  | 0, s => some s
  | run + 1, s => (s.writePixel capacity).bind (writeRun capacity run)

def store (s : Decoder) : Decoder := { s with colorHistory := s.colorHistory.store s.px }

def emit (capacity : Nat) (s : Decoder) (px : QoiPixel) : Option Decoder :=
  ({ s with px } : Decoder).store.writePixel capacity

def turn (capacity : Nat) (s : Decoder) : Option Decoder := do
  let (b1, s) ← s.readByte
  if b1 = 0xFE then
    let (r, s) ← s.readByte
    let (g, s) ← s.readByte
    let (b, s) ← s.readByte
    s.emit capacity { s.px with r, g, b }
  else if b1 = 0xFF then
    let (r, s) ← s.readByte
    let (g, s) ← s.readByte
    let (b, s) ← s.readByte
    let (a, s) ← s.readByte
    s.emit capacity { r, g, b, a }
  else if b1 &&& 0xC0 = 0x00 then
    let px ← s.colorHistory[b1.toNat]?
    s.emit capacity px
  else if b1 &&& 0xC0 = 0x40 then
    s.emit capacity (s.px.addDiff b1)
  else if b1 &&& 0xC0 = 0x80 then
    let (b2, s) ← s.readByte
    s.emit capacity (s.px.addLuma b1 b2)
  else
    -- `QOI_OP_RUN`, the only tag that is left.
    let s ← s.writeRun capacity ((b1 &&& 0x3F).toNat + 1)
    some s.store

def body (totalPixels : Nat) (s : Decoder) : Option (Decoder ⊕ Decoder) :=
  if s.pixelCount < totalPixels ∧ s.unread ≠ [] then (s.turn (totalPixels * 4)).map .inl else some (.inr s)

def decode (colorHistory : ColorHistory) (totalPixels : Nat) (compressedData : List UInt8) : Option Decoder :=
  Loop.run (body totalPixels) (compressedData.length + 1) { unread := compressedData.drop 14, colorHistory }

def buffer (totalPixels : Nat) (s : Decoder) : List UInt8 :=
  s.rawPixels ++ List.replicate (totalPixels * 4 - s.rawPixels.length) 0

end Decoder

def decompressQoiToBuffer (imageWidth imageHeight : Nat) (compressedData : List UInt8) :
    Option (List UInt8 × Decoder) :=
  (Decoder.decode ColorHistory.initial (imageWidth * imageHeight) compressedData).map fun s =>
    (s.buffer (imageWidth * imageHeight), s)

def ofBigEndian (bytes : List UInt8) : Nat := bytes.foldl (fun number byte => number * 256 + byte.toNat) 0

/-- A decoder of the published specification. It differs from the one above in the colour table, which begins
with transparent black in every slot, and in that it takes the size of the image from the header. -/
def standardDecode (compressedData : List UInt8) : Option (List QoiPixel) :=
  if compressedData.take 4 = Image.magic then
    let width := ofBigEndian ((compressedData.drop 4).take 4)
    let height := ofBigEndian ((compressedData.drop 8).take 4)
    (Decoder.decode (Vector.replicate 64 ⟨0, 0, 0, 0⟩) (width * height) compressedData).map Decoder.registers
  else none

end KnowledgeAcquisition.Compress
