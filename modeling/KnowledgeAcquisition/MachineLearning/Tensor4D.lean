import KnowledgeAcquisition.MachineLearning.Tensor2D

/-!
# Tensors of four dimensions

`Tensor4D` of `laboratory/cpp/MachineLearning/include/Tensor4D.h` over any type of elements, with sizes and accesses as in
`Tensor2D`.
-/

namespace KnowledgeAcquisition.MachineLearning
open Tensor2D (forEach store)

structure Tensor4D (α : Type*) where
  batch : Nat
  channels : Nat
  height : Nat
  width : Nat
  strideB : Nat
  strideC : Nat
  strideH : Nat
  data : List α

namespace Tensor4D

variable {α : Type*}

def new (b c h w : Nat) (initVal : α) : Option (Tensor4D α) :=
  if sizeT (b * c * h * w) > maxSize then none
  else
    some
      { batch := b
        channels := c
        height := h
        width := w
        strideB := sizeT (c * h * w)
        strideC := sizeT (h * w)
        strideH := w
        data := List.replicate (sizeT (b * c * h * w)) initVal }

def atIndex (tensor : Tensor4D α) (b c h w : Nat) : Nat :=
  sizeT (b * tensor.strideB + c * tensor.strideC + h * tensor.strideH + w)

def atValue (tensor : Tensor4D α) (b c h w : Nat) : Option α := tensor.data[tensor.atIndex b c h w]?

def atAssign (tensor : Tensor4D α) (b c h w : Nat) (value : α) : Option (Tensor4D α) :=
  (store tensor.data (tensor.atIndex b c h w) value).map fun data => { tensor with data }

def assignEach (batch channels height width : Nat) (value : Nat → Nat → Nat → Nat → Option α) (tensor : Tensor4D α) :
    Option (Tensor4D α) :=
  forEach batch tensor fun tensor b =>
    forEach channels tensor fun tensor c =>
      forEach height tensor fun tensor h =>
        forEach width tensor fun tensor w => do
          let assigned ← value b c h w
          tensor.atAssign b c h w assigned

inductive Gemm (α : Type*) where
  | invalidArgument
  | multiplied (C : Tensor4D α)

def outputContainer [Zero α] (A C : Tensor4D α) (aRows bCols : Nat) : Option (Tensor4D α) :=
  if C.height ≠ aRows ∨ C.width ≠ bCols ∨ C.batch ≠ A.batch ∨ C.channels ≠ A.channels then
    new A.batch A.channels aRows bCols 0
  else some C

variable [Zero α] [Add α] [Mul α]

def accumulator (A : Tensor4D α) (transA : Bool) (B : Tensor4D α) (transB : Bool) (inner b c i j : Nat) : Option α :=
  forEach inner 0 fun accumulator k => do
    let x ← A.atValue b c (if transA then k else i) (if transA then i else k)
    let y ← B.atValue b c (if transB then j else k) (if transB then k else j)
    some (accumulator + x * y)

def matmulGemm (A : Tensor4D α) (transA : Bool) (B : Tensor4D α) (transB : Bool) (C : Tensor4D α) :
    Option (Gemm α) := do
  let aRows := if transA then A.width else A.height
  let aCols := if transA then A.height else A.width
  let bRows := if transB then B.width else B.height
  let bCols := if transB then B.height else B.width
  if aCols ≠ bRows then some .invalidArgument
  else
    let C ← outputContainer A C aRows bCols
    let C ← assignEach A.batch A.channels aRows bCols (fun b c i j => accumulator A transA B transB aCols b c i j) C
    some (.multiplied C)

end Tensor4D

end KnowledgeAcquisition.MachineLearning
