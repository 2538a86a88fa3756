import KnowledgeAcquisition.Library.Bytes
import KnowledgeAcquisition.Library.Loop

/-!
# Huffman coding of a string

`Huffman_String.cpp` of `laboratory/cpp/Solution/Compress`: the constructor of `CompileTimeHuffman`, which builds
the tree and packs the string, and `decompressEmbeddedData`. An access outside an array is a fault, `none`. The
table `old_to_new_map` is left out, as nothing reads it.
-/

namespace KnowledgeAcquisition.Compress
open Library

def int16 (value : Int) : Int := (value + 32768) % 65536 - 32768

structure FlatNode where
  left : Int := 0
  right : Int := 0
  deriving DecidableEq, Repr

structure TempNode where
  ch : UInt8 := 0
  freq : Nat := 0
  leftChild : Int := -1
  rightChild : Int := -1
  isActive : Bool := true
  deriving DecidableEq, Repr

def pushBack {T : Type} (capacity : Nat) (data : List T) (val : T) : Option (List T) :=
  if data.length < capacity then some (data ++ [val]) else none

def element? {T : Type} (data : List T) (idx : Int) : Option T :=
  if 0 ≤ idx then data[idx.toNat]? else none

def freqMap (input : List UInt8) : Vector Nat 256 :=
  input.foldl (fun freqMap c => freqMap.set c.toNat (freqMap.get ⟨c.toNat, c.toNat_lt⟩ + 1) c.toNat_lt)
    (Vector.replicate 256 0)

def pushLeaf (freqMap : Vector Nat 256) (nodes : List TempNode) (i : Fin 256) : Option (List TempNode) :=
  if 0 < freqMap.get i then pushBack 256 nodes { ch := UInt8.ofNat i, freq := freqMap.get i } else some nodes

def lighter (nodes : List TempNode) (n : TempNode) : Option Nat → Option Bool
  | none => some true
  | some idx => nodes[idx]?.map fun other => n.freq < other.freq

def scanNode (nodes : List TempNode) (chosen : Option Nat × Option Nat) (i : Nat) :
    Option (Option Nat × Option Nat) := do
  let n ← nodes[i]?
  if n.isActive = false then some chosen
  else if ← lighter nodes n chosen.1 then some (some i, chosen.1)
  else if ← lighter nodes n chosen.2 then some (chosen.1, some i)
  else some chosen

def deactivate (n : TempNode) : TempNode := { n with isActive := false }

def merge (nodes : List TempNode) : Option (List TempNode ⊕ List TempNode) := do
  let chosen ← (List.range nodes.length).foldlM (scanNode nodes) (none, none)
  match chosen.2 with
  | none => some (.inr nodes)
  | some second =>
      let first ← chosen.1
      let lightest ← nodes[first]?
      let next ← nodes[second]?
      let parent : TempNode :=
        { ch := 0, freq := lightest.freq + next.freq, leftChild := int16 first, rightChild := int16 second }
      let nodes := (nodes.set first (deactivate lightest)).set second (deactivate next)
      (pushBack 256 nodes parent).map .inl

/-- The state of the breadth-first renumbering. The array `tree` is kept up to `tree_size`. -/
structure Flattening where
  queue : List Int
  q : Nat := 0
  flatIdx : Nat := 0
  tree : List FlatNode := []
  deriving DecidableEq

def flattenChild (nodes : List TempNode) (s : Flattening) (child : Int) : Option (Int × Flattening) := do
  let n ← element? nodes child
  if n.ch ≠ 0 then some (int16 (-int16 n.ch.toNat), s)
  else
    let queue ← pushBack 256 s.queue child
    some (int16 (s.flatIdx + 1), { s with queue, flatIdx := s.flatIdx + 1 })

def flattenNode (nodes : List TempNode) (s : Flattening) (n : TempNode) : Option Flattening := do
  let (left, s) ← flattenChild nodes s n.leftChild
  let (right, s) ← flattenChild nodes s n.rightChild
  let tree ← pushBack 128 s.tree { left, right }
  some { s with tree }

def flattenBody (nodes : List TempNode) (s : Flattening) : Option (Flattening ⊕ List FlatNode) :=
  if s.q < s.queue.length then do
    let curr ← s.queue[s.q]?
    let n ← element? nodes curr
    if n.ch ≠ 0 then some (.inl { s with q := s.q + 1 })
    else
      let next ← flattenNode nodes s n
      some (.inl { next with q := s.q + 1 })
  else some (.inr s.tree)

def tempNodes (input : List UInt8) : Option (List TempNode) := do
  let nodes ← (List.finRange 256).foldlM (pushLeaf (freqMap input)) []
  Loop.run merge 257 nodes

/-- The entries of `tree` that the constructor fills. Every merge adds a node to the 256, and every turn of the
renumbering takes one of the 256 places of the queue. -/
def flatTree (input : List UInt8) : Option (List FlatNode) := do
  let nodes ← (List.finRange 256).foldlM (pushLeaf (freqMap input)) []
  let nodes ← Loop.run merge 257 nodes
  Loop.run (flattenBody nodes) 257 { queue := [int16 (nodes.length - 1)] }

def treeArray (entries : List FlatNode) : List FlatNode := resizeTo {} entries 128

structure BitPath where
  bits : UInt32 := 0
  len : Nat := 0
  deriving DecidableEq, Repr

def findChild (findPath : Int → UInt32 → Nat → Option BitPath) (target : UInt8) (child : Int) (bits : UInt32)
    (depth : Nat) : Option BitPath :=
  if child ≤ 0 then some (if UInt8.ofInt (-child) = target then { bits, len := depth } else {})
  else findPath child bits depth

def findPath (tree : List FlatNode) (target : UInt8) : Nat → Int → UInt32 → Nat → Option BitPath
  | 0, _, _, _ => none
  | fuel + 1, nodeIdx, currentBits, depth => do
      let node ← element? tree nodeIdx
      let path ← findChild (findPath tree target fuel) target node.left ((currentBits <<< 1) ||| 0) (depth + 1)
      if 0 < path.len then some path
      else findChild (findPath tree target fuel) target node.right ((currentBits <<< 1) ||| 1) (depth + 1)

/-- `find_path(0, target, 0, 0)`. A path enters no entry twice, as a child has a higher place than its parent. -/
def pathOf (tree : List FlatNode) (target : UInt8) : Option BitPath := findPath tree target 129 0 0 0

def encodedBits (input : List UInt8) : Option Nat := do
  let entries ← flatTree input
  input.foldlM (fun bits c => (pathOf (treeArray entries) c).map fun path => bits + path.len) 0

structure BitPacking where
  compressedBytes : Vector UInt8 65000 := Vector.replicate 65000 0
  currentByteIdx : Nat := 0
  currentBitShift : Nat := 0

def setBit (bytes : Vector UInt8 65000) (idx shift : Nat) : Option (Vector UInt8 65000) :=
  if inside : idx < 65000 then
    some (bytes.set idx (bytes.get ⟨idx, inside⟩ ||| UInt8.ofNat (1 <<< shift)) inside)
  else none

/-- `(path.bits >> (path.len - 1 - b)) & 1`. A shift by 32 or more is undefined. -/
def BitPath.bit (path : BitPath) (b : Nat) : Option Bool :=
  let shift := path.len - 1 - b
  if shift < 32 then some ((path.bits >>> UInt32.ofNat shift) &&& 1 != 0) else none

namespace BitPacking

def pushBit (s : BitPacking) (bit : Bool) : Option BitPacking :=
  let written :=
    if bit then setBit s.compressedBytes s.currentByteIdx (7 - s.currentBitShift) else some s.compressedBytes
  written.map fun compressedBytes =>
    if s.currentBitShift + 1 = 8 then
      { compressedBytes, currentByteIdx := s.currentByteIdx + 1, currentBitShift := 0 }
    else { compressedBytes, currentByteIdx := s.currentByteIdx, currentBitShift := s.currentBitShift + 1 }

def pushPath (s : BitPacking) (path : BitPath) : Option BitPacking :=
  (List.range path.len).foldlM (fun s b => (path.bit b).bind s.pushBit) s

def pushChar (tree : List FlatNode) (s : BitPacking) (c : UInt8) : Option BitPacking :=
  (pathOf tree c).bind s.pushPath

end BitPacking

structure CompileTimeHuffman where
  tree : List FlatNode := treeArray []
  treeSize : Nat := 0
  compressedBytes : Vector UInt8 65000 := Vector.replicate 65000 0
  compressedSize : Nat := 0
  originalLength : Nat := 0

def compileTimeHuffman (input : List UInt8) : Option CompileTimeHuffman :=
  if input = [] then some {}
  else do
    let entries ← flatTree input
    let s ← input.foldlM (BitPacking.pushChar (treeArray entries)) {}
    some
      { tree := treeArray entries
        treeSize := entries.length
        compressedBytes := s.compressedBytes
        compressedSize := s.currentByteIdx + if 0 < s.currentBitShift then 1 else 0
        originalLength := input.length }

/-! ## The decoder -/

structure BitReader where
  byteIdx : Nat := 0
  bitIdx : Nat := 0
  deriving DecidableEq

namespace BitReader

def readBit (reader : BitReader) (bytes : Vector UInt8 65000) : Option (Bool × BitReader) := do
  let byte ← bytes[reader.byteIdx]?
  let bit := (byte.toNat >>> (7 - reader.bitIdx)) &&& 1 != 0
  if reader.bitIdx + 1 = 8 then some (bit, { byteIdx := reader.byteIdx + 1, bitIdx := 0 })
  else some (bit, { reader with bitIdx := reader.bitIdx + 1 })

end BitReader

structure Decompression where
  reader : BitReader := {}
  charactersDecompressed : Nat := 0
  currNodeIdx : Int := 0
  result : List UInt8 := []
  deriving DecidableEq

namespace Decompression

def body (huff : CompileTimeHuffman) (s : Decompression) : Option (Decompression ⊕ List UInt8) :=
  if s.charactersDecompressed < huff.originalLength then do
    let (bit, reader) ← s.reader.readBit huff.compressedBytes
    let node ← element? huff.tree s.currNodeIdx
    let nextStep := if bit then node.right else node.left
    if nextStep ≤ 0 then
      some (.inl
        { reader, charactersDecompressed := s.charactersDecompressed + 1, currNodeIdx := 0,
          result := s.result ++ [UInt8.ofInt (-nextStep)] })
    else some (.inl { s with reader, currNodeIdx := nextStep })
  else some (.inr s.result)

end Decompression

def decompressEmbeddedData (huff : CompileTimeHuffman) : Option (List UInt8) :=
  if huff.originalLength = 0 then some []
  else Loop.run (Decompression.body huff) (65000 * 8 + 1) {}

end KnowledgeAcquisition.Compress
