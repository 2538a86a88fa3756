import KnowledgeAcquisition.Library.Bytes
import KnowledgeAcquisition.Library.OrderedMap
import KnowledgeAcquisition.MachineLearning.Tensor2D

/-!
# Checkpoints of a model

`ModelCheckpoint` of `laboratory/cpp/MachineLearning/include/ModelCheckpoint.h`, with `write_binary` and `read_binary` of
`Tensor2D.h`. A `float` is its bit pattern. Each name is registered for a tensor of its own: no two names share one, so that
what is read under a name changes nothing under another. A result `none` is the use of a variable that has not been read.
-/

namespace KnowledgeAcquisition.MachineLearning
open Library

abbrev Name := List UInt8

instance : IsStrictTotalOrder Name (· < ·) where
  irrefl := List.lt_irrefl
  trans _ _ _ := List.lt_trans
  trichotomous _ _ left right := List.le_antisymm (List.not_lt.mp right) (List.not_lt.mp left)

abbrev Parameter := Tensor2D UInt32

abbrev StateDict := OrderedMap Name Parameter (· < ·)

/-- An `std::ifstream`. After a failure, when every operation does nothing, it has no position. -/
structure IStream where
  file : List UInt8
  position : Option Nat

namespace IStream

def read (is : IStream) (n : Nat) : List UInt8 × IStream :=
  match is.position with
  | none => ([], is)
  | some position =>
      let bytes := (is.file.drop position).take n
      (bytes, { is with position := if bytes.length = n then some (position + n) else none })

def readSizeT (is : IStream) : Option Nat × IStream :=
  let (bytes, is) := is.read 8
  (if bytes.length = 8 then some (ofLittleEndian bytes) else none, is)

/-- `seekg(off, std::ios::cur)`, where `off` is converted from a `size_t`. -/
def seekg (is : IStream) (off : Nat) : IStream :=
  match is.position with
  | none => is
  | some position =>
      let target : Int := position + (if off < 2 ^ 63 then (off : Int) else off - 2 ^ 64)
      { is with position := if target < 0 then none else some target.toNat }

end IStream

def bytesOf (data : List UInt32) : List UInt8 := data.flatMap fun bits => littleEndian 4 bits.toNat

def floatsOf : List UInt8 → List UInt32
  | a :: b :: c :: d :: rest => UInt32.ofNat (ofLittleEndian [a, b, c, d]) :: floatsOf rest
  | _ => []

namespace Tensor2D

def writeBinary (tensor : Parameter) : List UInt8 :=
  littleEndian 8 tensor.rows ++ littleEndian 8 tensor.cols ++ bytesOf tensor.data

end Tensor2D

inductive Outcome where
  | returned
  | threw
  deriving DecidableEq

namespace Tensor2D

def readBinary (tensor : Parameter) (is : IStream) : Option (Outcome × IStream × Parameter) := do
  let (inRows, is) := is.readSizeT
  let (inCols, is) := is.readSizeT
  let inRows ← inRows
  if inRows ≠ tensor.rows then some (.threw, is, tensor)
  else
    let inCols ← inCols
    if inCols ≠ tensor.cols then some (.threw, is, tensor)
    else
      let (bytes, is) := is.read (sizeT (tensor.data.length * 4))
      some (.returned, is, { tensor with data := floatsOf (overlay bytes (bytesOf tensor.data)) })

end Tensor2D

namespace ModelCheckpoint

def registerParameter (stateDict : StateDict) (name : Name) (parameter : Parameter) : StateDict :=
  stateDict.assign name parameter

def saveEntry (entry : Name × Parameter) : List UInt8 :=
  littleEndian 8 entry.1.length ++ entry.1 ++ entry.2.writeBinary

def save (stateDict : StateDict) : List UInt8 :=
  littleEndian 8 stateDict.entries.length ++ stateDict.entries.flatMap saveEntry

/-- An iteration of the loop of `load`. A string of more than `memory` bytes cannot be made. -/
def loadEntry (memory : Nat) (is : IStream) (stateDict : StateDict) : Option (Outcome × IStream × StateDict) := do
  let (nameLen, is) := is.readSizeT
  let nameLen ← nameLen
  if memory < nameLen then some (.threw, is, stateDict)
  else
    let (bytes, is) := is.read nameLen
    let name := overlay bytes (List.replicate nameLen 32)
    match stateDict.find? name with
    | some tensor => do
        let (outcome, is, tensor) ← tensor.readBinary is
        some (outcome, is, stateDict.assign name tensor)
    | none => do
        let (skipRows, is) := is.readSizeT
        let (skipCols, is) := is.readSizeT
        let skipRows ← skipRows
        let skipCols ← skipCols
        some (.returned, is.seekg (sizeT (skipRows * skipCols * 4)), stateDict)

def loadEntries (memory : Nat) : Nat → IStream → StateDict → Option (Outcome × IStream × StateDict)
  | 0, is, stateDict => some (.returned, is, stateDict)
  | n + 1, is, stateDict => do
      let (outcome, is, stateDict) ← loadEntry memory is stateDict
      match outcome with
      | .threw => some (.threw, is, stateDict)
      | .returned => loadEntries memory n is stateDict

def load (memory : Nat) (stateDict : StateDict) (file : List UInt8) : Option (Outcome × IStream × StateDict) := do
  let (numTensors, is) := (IStream.mk file (some 0)).readSizeT
  let numTensors ← numTensors
  loadEntries memory numTensors is stateDict

end ModelCheckpoint

end KnowledgeAcquisition.MachineLearning
