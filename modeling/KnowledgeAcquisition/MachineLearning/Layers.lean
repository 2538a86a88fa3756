import KnowledgeAcquisition.MachineLearning.DenseLayer
import KnowledgeAcquisition.MachineLearning.ModelCheckpoint
import KnowledgeAcquisition.Util.JsonHelper

/-!
# Stacks of layers

`Layer.h`, `ReLULayer.h`, `LeakyReLULayer.h`, `SigmoidLayer.h`, `Sequential.h` and `SGDOptimizer` of `Optimizer.h` in
`laboratory/cpp/MachineLearning/include`, over any type of elements. A layer that a pointer to the base class points to
is one of the four kinds.
-/

namespace KnowledgeAcquisition.MachineLearning
open Library Tensor2D

/-- The factor `0.01f` of `LeakyReLU` and the logistic function. -/
structure Coefficients (α : Type*) where
  leak : α
  logistic : α → α

inductive Layer (α : Type*) where
  | dense (layer : DenseLayer α)
  | relu (inputCache : Tensor2D α)
  | leakyReLU (inputCache : Tensor2D α)
  | sigmoid (outputCache : Tensor2D α)

abbrev Sequential (α : Type*) := List (Layer α)

def assignEach {α : Type*} (rows cols : Nat) (value : Tensor2D α → Nat → Nat → Option α) (tensor : Tensor2D α) :
    Option (Tensor2D α) :=
  forEach rows tensor fun tensor i =>
    forEach cols tensor fun tensor j => do
      let assigned ← value tensor i j
      tensor.atAssign i j assigned

section Passes

variable {α : Type*} [Ring α] [LinearOrder α]

namespace LeakyReLULayer

def forward (leak : α) (input : Tensor2D α) : Option (Tensor2D α) := do
  let result ← Tensor2D.new input.rows input.cols 0
  assignEach input.rows input.cols (fun _ i j => do
    let x ← input.atValue i j
    some (if x > 0 then x else leak * x)) result

def backward (leak : α) (inputCache incomingGradient : Tensor2D α) : Option (Tensor2D α) := do
  let dInput ← Tensor2D.new inputCache.rows inputCache.cols 0
  assignEach inputCache.rows inputCache.cols (fun _ i j => do
    let x ← inputCache.atValue i j
    let localGrad := if x > 0 then 1 else leak
    let g ← incomingGradient.atValue i j
    some (g * localGrad)) dInput

end LeakyReLULayer

namespace DenseLayer

def descend (learningRate : α) (gradient tensor : Tensor2D α) (i j : Nat) : Option α := do
  let g ← gradient.atValue i j
  let old ← tensor.atValue i j
  some (old - learningRate * g)

def updateParameters (learningRate : α) (layer : DenseLayer α) : Option (DenseLayer α) := do
  let weights ← assignEach layer.weights.rows layer.weights.cols (descend learningRate layer.dWeights) layer.weights
  let bias ← assignEach 1 layer.bias.cols (descend learningRate layer.dBias) layer.bias
  some { layer with weights, bias }

end DenseLayer

namespace Layer

def forward (coefficients : Coefficients α) : Layer α → Tensor2D α → Option (Tensor2D α × Layer α)
  | dense layer, input => do
      let (output, layer) ← layer.forward input
      some (output, dense layer)
  | relu _, input => do
      let inputCache ← input.relu
      some (inputCache, relu inputCache)
  | leakyReLU _, input => do
      let result ← LeakyReLULayer.forward coefficients.leak input
      some (result, leakyReLU input)
  | sigmoid _, input => do
      let outputCache ← input.sigmoid coefficients.logistic
      some (outputCache, sigmoid outputCache)

def backward (coefficients : Coefficients α) : Layer α → Tensor2D α → Option (Tensor2D α × Layer α)
  | dense layer, incomingGradient => do
      let (dInput, layer) ← layer.backward incomingGradient
      some (dInput, dense layer)
  | relu inputCache, incomingGradient => do
      let gradient ← inputCache.reluBackward incomingGradient
      some (gradient, relu inputCache)
  | leakyReLU inputCache, incomingGradient => do
      let dInput ← LeakyReLULayer.backward coefficients.leak inputCache incomingGradient
      some (dInput, leakyReLU inputCache)
  | sigmoid outputCache, incomingGradient => do
      let dInput ← outputCache.sigmoidBackward coefficients.logistic incomingGradient
      some (dInput, sigmoid outputCache)

def zeroGradients : Layer α → Layer α
  | dense layer => dense layer.zeroGradients
  | layer => layer

def updateParameters (learningRate : α) : Layer α → Option (Layer α)
  | dense layer => (layer.updateParameters learningRate).map dense
  | layer => some layer

end Layer

namespace Sequential

def forward (coefficients : Coefficients α) : Sequential α → Tensor2D α → Option (Tensor2D α × Sequential α)
  | [], currentActivation => some (currentActivation, [])
  | layer :: layers, currentActivation => do
      let (currentActivation, layer) ← layer.forward coefficients currentActivation
      let (currentActivation, layers) ← forward coefficients layers currentActivation
      some (currentActivation, layer :: layers)

/-- The loop from `rbegin()` to `rend()`: the layers behind a layer are passed before it. -/
def backward (coefficients : Coefficients α) : Sequential α → Tensor2D α → Option (Tensor2D α × Sequential α)
  | [], currentGradient => some (currentGradient, [])
  | layer :: layers, currentGradient => do
      let (currentGradient, layers) ← backward coefficients layers currentGradient
      let (currentGradient, layer) ← layer.backward coefficients currentGradient
      some (currentGradient, layer :: layers)

def zeroGrad (layers : Sequential α) : Sequential α := layers.map Layer.zeroGradients

end Sequential

def step (learningRate : α) (layers : Sequential α) : Option (Sequential α) :=
  layers.mapM (Layer.updateParameters learningRate)

end Passes

/-! ## Checkpoints -/

def dotWeights : Name := [46, 119, 101, 105, 103, 104, 116, 115]

def dotBias : Name := [46, 98, 105, 97, 115]

def layerPrefix (i : Nat) : Name := [108, 97, 121, 101, 114, 95] ++ Util.toString i

namespace Layer

/-- `get_parameters`, with the parameters themselves in place of the pointers to them. -/
def getParameters (layerPrefix : Name) : Layer UInt32 → StateDict
  | dense layer => (OrderedMap.empty.assign (layerPrefix ++ dotWeights) layer.weights).assign (layerPrefix ++ dotBias)
      layer.bias
  | _ => OrderedMap.empty

def setParameters (layerPrefix : Name) (stateDict : StateDict) : Layer UInt32 → Layer UInt32
  | dense layer => dense
      { layer with
        weights := (stateDict.find? (layerPrefix ++ dotWeights)).getD layer.weights
        bias := (stateDict.find? (layerPrefix ++ dotBias)).getD layer.bias }
  | layer => layer

end Layer

namespace Sequential

def register : Nat → Sequential UInt32 → StateDict → StateDict
  | _, [], checkpoint => checkpoint
  | i, layer :: layers, checkpoint =>
      register (i + 1) layers <| (layer.getParameters (layerPrefix i)).entries.foldl
        (fun checkpoint (name, parameter) => ModelCheckpoint.registerParameter checkpoint name parameter) checkpoint

def save (layers : Sequential UInt32) : List UInt8 := ModelCheckpoint.save (register 0 layers OrderedMap.empty)

def load (memory : Nat) (layers : Sequential UInt32) (file : List UInt8) :
    Option (Outcome × Sequential UInt32) := do
  let (outcome, _, stateDict) ← ModelCheckpoint.load memory (register 0 layers OrderedMap.empty) file
  some (outcome, layers.mapIdx fun i layer => layer.setParameters (layerPrefix i) stateDict)

end Sequential

end KnowledgeAcquisition.MachineLearning
