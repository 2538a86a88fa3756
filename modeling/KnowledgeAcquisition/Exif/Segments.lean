import KnowledgeAcquisition.Library.Loop

/-!
# Old metadata of a JPEG file

The check of the source and the loop over its segments in `main` of
`laboratory/cpp/ThirdpartyUnitTest/exif/02_write_exif.cpp`. A result `none` is an access outside of the vector.
-/

namespace KnowledgeAcquisition.Exif
open Library

structure Source where
  bytes : List UInt8
  fits : bytes.length ≤ 9223372036854775807

def IsMetadata (marker : UInt8) : Prop := marker ≥ 0xE0 ∧ marker ≤ 0xEF ∨ marker = 0xFE

instance (marker : UInt8) : Decidable (IsMetadata marker) := inferInstanceAs (Decidable (_ ∨ _))

def segmentLen (high low : UInt8) : UInt16 := high.toUInt16 <<< 8 ||| low.toUInt16

namespace Source

def size (src : Source) : UInt64 := UInt64.ofNat src.bytes.length

def at? (src : Source) (offset : UInt64) : Option UInt8 := src.bytes[offset.toNat]?

def IsJpeg (src : Source) : Prop :=
  ¬ (src.size < 2 ∨ src.at? 0 ≠ some 0xFF ∨ src.at? 1 ≠ some 0xD8)

instance (src : Source) : Decidable src.IsJpeg := inferInstanceAs (Decidable (¬ _))

def skipSegment (src : Source) (srcReadOffset : UInt64) : Option (UInt64 ⊕ UInt64) :=
  if srcReadOffset < src.size - 4 then do
    let byte ← src.at? srcReadOffset
    if byte = 0xFF then do
      let marker ← src.at? (srcReadOffset + 1)
      if IsMetadata marker then do
        let high ← src.at? (srcReadOffset + 2)
        let low ← src.at? (srcReadOffset + 3)
        some (.inl (srcReadOffset + (2 + (segmentLen high low).toUInt64)))
      else some (.inr srcReadOffset)
    else some (.inl (srcReadOffset + 1))
  else some (.inr srcReadOffset)

def skipMetadata (src : Source) (fuel : Nat) : Option UInt64 := Loop.run src.skipSegment fuel 2

def remaining (src : Source) (srcReadOffset : UInt64) : Option (List UInt8) :=
  let count := (src.size - srcReadOffset).toNat
  if srcReadOffset.toNat + count ≤ src.bytes.length then some ((src.bytes.drop srcReadOffset.toNat).take count)
  else none

end Source

end KnowledgeAcquisition.Exif
