import KnowledgeAcquisition.MachineLearning.Tensor4D

/-!
# Convolutional layers

`Conv2DLayer::forward` of `laboratory/cpp/MachineLearning/include/Conv2DLayer.h` over any type of elements.
-/

namespace KnowledgeAcquisition.MachineLearning
open Tensor2D (forEach)

structure Conv2DLayer (α : Type*) where
  inChannels : Nat
  outChannels : Nat
  kernelSize : Nat
  stride : Nat
  padding : Nat
  weights : Tensor4D α
  bias : Tensor4D α
  inputCache : Tensor4D α

/-- A subtraction of a `size_t`, which wraps around below zero. -/
def subT (a b : Nat) : Nat := sizeT (a + (18446744073709551616 - sizeT b))

def longLong (n : Nat) : Int := if n < 9223372036854775808 then n else n - 18446744073709551616

namespace Conv2DLayer

variable {α : Type*} [Zero α] [Add α] [Mul α]

def outSize (layer : Conv2DLayer α) (side : Nat) : Nat :=
  sizeT (subT (sizeT (side + sizeT (2 * layer.padding))) layer.kernelSize / layer.stride + 1)

def windowStart (layer : Conv2DLayer α) (o : Nat) : Nat := subT (sizeT (o * layer.stride)) layer.padding

def windowSum (layer : Conv2DLayer α) (input : Tensor4D α) (b oc oh ow : Nat) : Option α :=
  forEach layer.inChannels 0 fun sum ic =>
    forEach layer.kernelSize sum fun sum kh =>
      forEach layer.kernelSize sum fun sum kw =>
        let currH := longLong (sizeT (layer.windowStart oh + kh))
        let currW := longLong (sizeT (layer.windowStart ow + kw))
        if 0 ≤ currH ∧ currH < longLong input.height ∧ 0 ≤ currW ∧ currW < longLong input.width then do
          let x ← input.atValue b ic currH.toNat currW.toNat
          let y ← layer.weights.atValue oc ic kh kw
          some (sum + x * y)
        else some sum

def forward (layer : Conv2DLayer α) (input : Tensor4D α) : Option (Tensor4D α × Conv2DLayer α) :=
  let layer := { layer with inputCache := input }
  -- A division by zero.
  if layer.stride = 0 then none
  else do
    let outH := layer.outSize input.height
    let outW := layer.outSize input.width
    let output ← Tensor4D.new input.batch layer.outChannels outH outW 0
    let output ← Tensor4D.assignEach input.batch layer.outChannels outH outW
      (fun b oc oh ow => do
        let sum ← layer.windowSum input b oc oh ow
        let bias ← layer.bias.atValue 0 oc 0 0
        some (sum + bias)) output
    some (output, layer)

end Conv2DLayer

end KnowledgeAcquisition.MachineLearning
