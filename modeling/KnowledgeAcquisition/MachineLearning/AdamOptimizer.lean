import KnowledgeAcquisition.MachineLearning.Layers
import Mathlib.Algebra.Field.Defs

/-!
# Adam

`AdamOptimizer` of `laboratory/cpp/MachineLearning/include/AdamOptimizer.h`, over any type of elements. The tensors `m_w`,
`v_w`, `m_b` and `v_b` that a `DenseLayer` keeps for it are its own here, one entry for each layer, and `std::sqrt` is a
parameter.
-/

namespace KnowledgeAcquisition.MachineLearning
open Tensor2D

universe u

structure Moments (α : Type u) where
  m : Tensor2D α
  v : Tensor2D α

structure AdamStates (α : Type u) where
  w : Moments α
  b : Moments α

structure AdamOptimizer (α : Type u) where
  learningRate : α
  beta1 : α
  beta2 : α
  epsilon : α
  timeStep : Nat := 0
  /-- `none` stands for a layer with `adam_initialized` false. -/
  states : List (Option (AdamStates α)) := []

namespace AdamOptimizer

variable {α : Type u} [Field α]

def initMoments (rows cols : Nat) : Option (Moments α) := do
  let m ← Tensor2D.new rows cols 0
  let v ← Tensor2D.new rows cols 0
  some { m, v }

def initAdamStates (layer : DenseLayer α) : Option (AdamStates α) → Option (AdamStates α)
  | some states => some states
  | none => do
      let w ← initMoments layer.weights.rows layer.weights.cols
      let b ← initMoments 1 layer.bias.cols
      some { w, b }

def update (squareRoot : α → α) (optimizer : AdamOptimizer α) (gradient : Tensor2D α) (now : Tensor2D α × Moments α)
    (i j : Nat) : Option (Tensor2D α × Moments α) := do
  let correction1 := 1 - optimizer.beta1 ^ optimizer.timeStep
  let correction2 := 1 - optimizer.beta2 ^ optimizer.timeStep
  let dw ← gradient.atValue i j
  let mw ← now.2.m.atValue i j
  let m ← now.2.m.atAssign i j (optimizer.beta1 * mw + (1 - optimizer.beta1) * dw)
  let vw ← now.2.v.atValue i j
  let v ← now.2.v.atAssign i j (optimizer.beta2 * vw + (1 - optimizer.beta2) * dw * dw)
  let mw ← m.atValue i j
  let mHat := mw / correction1
  let vw ← v.atValue i j
  let vHat := vw / correction2
  let old ← now.1.atValue i j
  let parameter ← now.1.atAssign i j (old - optimizer.learningRate / (squareRoot vHat + optimizer.epsilon) * mHat)
  some (parameter, { m, v })

def updateEach (squareRoot : α → α) (optimizer : AdamOptimizer α) (rows cols : Nat) (gradient : Tensor2D α)
    (start : Tensor2D α × Moments α) : Option (Tensor2D α × Moments α) :=
  forEach rows start fun now i => forEach cols now fun now j => update squareRoot optimizer gradient now i j

def stepLayer (squareRoot : α → α) (optimizer : AdamOptimizer α) (states : Option (AdamStates α)) :
    Layer α → Option (Option (AdamStates α) × Layer α)
  | .dense layer => do
      let states ← initAdamStates layer states
      let (weights, w) ← updateEach squareRoot optimizer layer.weights.rows layer.weights.cols layer.dWeights
        (layer.weights, states.w)
      let (bias, b) ← updateEach squareRoot optimizer 1 layer.bias.cols layer.dBias (layer.bias, states.b)
      some (some { w, b }, .dense { layer with weights, bias })
  | layer => some (states, layer)

def stepLayers (squareRoot : α → α) (optimizer : AdamOptimizer α) :
    List (Option (AdamStates α)) → Sequential α → Option (List (Option (AdamStates α)) × Sequential α)
  | _, [] => some ([], [])
  | states, layer :: layers => do
      let (here, layer) ← stepLayer squareRoot optimizer states.head?.join layer
      let (rest, layers) ← stepLayers squareRoot optimizer states.tail layers
      some (here :: rest, layer :: layers)

def step (squareRoot : α → α) (optimizer : AdamOptimizer α) (model : Sequential α) :
    Option (AdamOptimizer α × Sequential α) := do
  let optimizer := { optimizer with
    timeStep := if optimizer.timeStep < 200 then optimizer.timeStep + 1 else optimizer.timeStep }
  let (states, model) ← stepLayers squareRoot optimizer optimizer.states model
  some ({ optimizer with states }, model)

end AdamOptimizer

end KnowledgeAcquisition.MachineLearning
