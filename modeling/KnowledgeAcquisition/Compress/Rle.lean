import KnowledgeAcquisition.Library.Loop
import Mathlib.Data.List.Basic

/-!
# Run-length encoding of an image

`compressStbImageRuntime` of `RLE.cpp` in `laboratory/cpp/Solution/Compress`. A read outside the pixel buffer is a
fault, `none`. The buffer lies in memory, so the offsets into it do not wrap; `runLength` is a byte.
-/

namespace KnowledgeAcquisition.Compress
open Library

structure RuntimeCompressedAsset where
  packedPayload : List UInt8 := []
  width : Nat := 0
  height : Nat := 0
  channels : Nat := 0
  deriving DecidableEq, Repr

namespace Rle

def colorsMatch (rawPixels : List UInt8) (currentPixelOffset nextPixelOffset : Nat) : List Nat → Option Bool
  | [] => some true
  | c :: channels => do
      let current ← rawPixels[currentPixelOffset + c]?
      let next ← rawPixels[nextPixelOffset + c]?
      if current ≠ next then some false else colorsMatch rawPixels currentPixelOffset nextPixelOffset channels

def extendRun (rawPixels : List UInt8) (totalPixels channels i : Nat) (runLength : UInt8) : Option (UInt8 ⊕ UInt8) :=
  if i + runLength.toNat < totalPixels ∧ runLength < 255 then do
    let same ← colorsMatch rawPixels (i * channels) ((i + runLength.toNat) * channels) (List.range channels)
    if same then some (.inl (runLength + 1)) else some (.inr runLength)
  else some (.inr runLength)

structure State where
  i : Nat := 0
  packedPayload : List UInt8 := []
  deriving DecidableEq

def packRun (rawPixels : List UInt8) (totalPixels channels : Nat) (s : State) : Option (State ⊕ State) :=
  if s.i < totalPixels then do
    let runLength ← Loop.run (extendRun rawPixels totalPixels channels s.i) 256 1
    let pixel ← (List.range channels).mapM fun c => rawPixels[s.i * channels + c]?
    some (.inl { i := s.i + runLength.toNat, packedPayload := s.packedPayload ++ runLength :: pixel })
  else some (.inr s)

end Rle

/-- `compressStbImageRuntime`; a null `rawPixels` is `none`. Every turn of the loop moves on by a pixel. -/
def compressStbImageRuntime (rawPixels : Option (List UInt8)) (w h channels : Nat) : Option RuntimeCompressedAsset :=
  let asset : RuntimeCompressedAsset := { width := w, height := h, channels }
  let totalPixels := w * h
  match rawPixels with
  | none => some asset
  | some rawPixels =>
      if totalPixels = 0 then some asset
      else
        (Loop.run (Rle.packRun rawPixels totalPixels channels) (totalPixels + 1) {}).map fun s =>
          { asset with packedPayload := s.packedPayload }

end KnowledgeAcquisition.Compress
