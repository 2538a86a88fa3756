import KnowledgeAcquisition.Library.Accumulation
import KnowledgeAcquisition.MachineLearning.Tensor2D
import Mathlib.Data.List.FinRange

/-!
# Dense layers

`DenseLayer` of `laboratory/cpp/MachineLearning/include/DenseLayer.h` over any type of elements, without the state of the
optimizer. The loops are run in order, and the one over the bias also by several threads.
-/

namespace KnowledgeAcquisition.MachineLearning
open Library Tensor2D

structure DenseLayer (α : Type*) where
  weights : Tensor2D α
  bias : Tensor2D α
  inputCache : Tensor2D α
  dWeights : Tensor2D α
  dBias : Tensor2D α

namespace DenseLayer

variable {α : Type*} [Zero α] [Add α] [Mul α]

def addEach (rows cols : Nat) (row : Nat → Nat) (value : Nat → Nat → Option α) (tensor : Tensor2D α) :
    Option (Tensor2D α) :=
  forEach rows tensor fun tensor i =>
    forEach cols tensor fun tensor j => do
      let added ← value i j
      tensor.atAdd (row i) j added

def zeroGradients (layer : DenseLayer α) : DenseLayer α :=
  { layer with dWeights := layer.dWeights.fillZero, dBias := layer.dBias.fillZero }

def forward (layer : DenseLayer α) (input : Tensor2D α) : Option (Tensor2D α × DenseLayer α) := do
  let layer := { layer with inputCache := input }
  let output ← input.matmul layer.weights
  let output ← addEach output.rows output.cols (fun i => i) (fun _ j => layer.bias.atValue 0 j) output
  some (output, layer)

def backward (layer : DenseLayer α) (incomingGradient : Tensor2D α) : Option (Tensor2D α × DenseLayer α) := do
  let inputT := layer.inputCache.transpose
  let currentDWeights ← inputT.matmul incomingGradient
  let dWeights ← addEach layer.dWeights.rows layer.dWeights.cols (fun i => i) (fun i j => currentDWeights.atValue i j)
    layer.dWeights
  let dBias ← addEach incomingGradient.rows incomingGradient.cols (fun _ => 0) (fun i j => incomingGradient.atValue i j)
    layer.dBias
  let weightsT := layer.weights.transpose
  let dInput ← incomingGradient.matmul weightsT
  some (dInput, { layer with dWeights, dBias })

end DenseLayer

/-! ## The loop over the bias -/

/-- `schedule(static)`: one block of rows behind the other for one thread after the other. -/
structure Distribution (rows : Nat) where
  blocks : List (List (Fin rows))
  covers : blocks.flatten = List.finRange rows

namespace Distribution

variable {α : Type*} {rows cols : Nat}

/-- What the threads have to do: all of it falls to one of them unless `rows * cols > 256`. -/
def team (distribution : Distribution rows) (cols : Nat) : List (List (Fin rows)) :=
  if sizeT (rows * cols) > 256 then distribution.blocks else [List.finRange rows]

def additions (incomingGradient : Fin rows → Fin cols → α) (block : List (Fin rows)) : List (Fin cols × α) :=
  block.flatMap fun i => (List.finRange cols).map fun j => (j, incomingGradient i j)

def biasLoop (distribution : Distribution rows) (incomingGradient : Fin rows → Fin cols → α) (dBias : Fin cols → α) :
    Accumulation.State (Fin cols) α :=
  Accumulation.start dBias ((distribution.team cols).map (additions incomingGradient))

end Distribution

end KnowledgeAcquisition.MachineLearning
