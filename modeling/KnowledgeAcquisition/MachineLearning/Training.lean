import KnowledgeAcquisition.Library.Loop
import KnowledgeAcquisition.MachineLearning.Conv2DLayer
import KnowledgeAcquisition.MachineLearning.DataLoader
import KnowledgeAcquisition.MachineLearning.Layers
import Mathlib.Algebra.Field.Defs

/-!
# Training

`DatasetUtils.h` and `MSELoss` of `Loss.h` in `laboratory/cpp/MachineLearning/include`, and the training program
`example/models/train.cpp`, over any type of elements and for any optimizer. What `std::shuffle` leaves is an argument, and
so is the number of samples that the product with `val_ratio` gives.
-/

namespace KnowledgeAcquisition.MachineLearning
open Library Tensor2D

structure Subsets (α : Type*) where
  trainIn : Tensor2D α
  trainTgt : Tensor2D α
  valIn : Tensor2D α
  valTgt : Tensor2D α

namespace DatasetUtils

variable {α : Type*}

def hydrate [Zero α] (inputs targets : Tensor2D α) (indices : List Nat) (offset samples : Nat) :
    Option (Tensor2D α × Tensor2D α) := do
  let subsetIn ← Tensor2D.new samples inputs.cols 0
  let subsetTgt ← Tensor2D.new samples targets.cols 0
  forEach samples (subsetIn, subsetTgt) fun (subsetIn, subsetTgt) i =>
    (indices[offset + i]?).bind fun idx => do
      let subsetIn ← DataLoader.copyRow subsetIn inputs i idx inputs.cols
      let subsetTgt ← DataLoader.copyRow subsetTgt targets i idx targets.cols
      some (subsetIn, subsetTgt)

def trainTestSplit [Zero α] (inputs targets : Tensor2D α) (valSamples : Nat) (indices : List Nat) :
    Option (Subsets α) := do
  let totalSamples := inputs.rows
  let trainSamples := subT totalSamples valSamples
  let (trainIn, trainTgt) ← hydrate inputs targets indices 0 trainSamples
  let (valIn, valTgt) ← hydrate inputs targets indices trainSamples valSamples
  some { trainIn, trainTgt, valIn, valTgt }

def calculateAccuracy [Field α] [LinearOrder α] (threshold : α) (pred target : Tensor2D α) : Option α :=
  (forEach pred.rows (0 : Nat) fun correctPredictions i =>
    (pred.atValue i 0).bind fun p =>
      let predictedClass : α := if p ≥ threshold then 1 else 0
      (target.atValue i 0).map fun actualClass =>
        if predictedClass = actualClass then correctPredictions + 1 else correctPredictions).map
    fun (correctPredictions : Nat) => (correctPredictions : α) / (pred.rows : α) * ((100 : Nat) : α)

end DatasetUtils

namespace MSELoss

variable {α : Type*} [Ring α] [Div α]

def forward (pred target : Tensor2D α) : Option α :=
  if pred.rows ≠ target.rows ∨ pred.cols ≠ target.cols then none
  else do
    let n := sizeT (pred.rows * pred.cols)
    let totalLoss ← forEach pred.rows 0 fun totalLoss i =>
      forEach pred.cols totalLoss fun totalLoss j => do
        let p ← pred.atValue i j
        let t ← target.atValue i j
        let diff := p - t
        some (totalLoss + diff * diff)
    some (totalLoss / (n : α))

def backward (pred target : Tensor2D α) : Option (Tensor2D α) := do
  let n := sizeT (pred.rows * pred.cols)
  let gradient ← Tensor2D.new pred.rows pred.cols 0
  assignEach pred.rows pred.cols (fun _ i j => do
    let p ← pred.atValue i j
    let t ← target.atValue i j
    some ((1 + 1) / (n : α) * (p - t))) gradient

end MSELoss

/-! ## The program -/

universe u

/-- What the training changes: the state of the optimizer, the model, and the loss of the last batch. -/
structure Trainee (ω α : Type u) where
  optimizer : ω
  model : Sequential α
  loss : α

structure Settings (ω α : Type u) where
  coefficients : Coefficients α
  optimizerStep : ω → Sequential α → Option (ω × Sequential α)
  batchSize : Nat
  valSamples : Nat
  totalEpochs : Nat
  /-- Predictions from here on are of the class one. -/
  threshold : α
  /-- A loss below ends the training. -/
  enough : α

namespace Training

variable {ω α : Type u} [Field α] [LinearOrder α]

def trainBatch (settings : Settings ω α) (trainee : Trainee ω α) (batch : Tensor2D α × Tensor2D α) :
    Option (Trainee ω α) := do
  let model := trainee.model.zeroGrad
  let (pred, model) ← model.forward settings.coefficients batch.1
  let loss ← MSELoss.forward pred batch.2
  let lossGrad ← MSELoss.backward pred batch.2
  let (_, model) ← model.backward settings.coefficients lossGrad
  let (optimizer, model) ← settings.optimizerStep trainee.optimizer model
  some { optimizer, model, loss }

def turn (settings : Settings ω α) (state : DataLoader α × Trainee ω α) :
    Option ((DataLoader α × Trainee ω α) ⊕ (DataLoader α × Trainee ω α)) := do
  let (batch, dataloader) ← state.1.nextBatch
  match batch with
  | none => some (.inr (dataloader, state.2))
  | some batch => do
      let trainee ← trainBatch settings state.2 batch
      some (.inl (dataloader, trainee))

def epoch (settings : Settings ω α) (fuel : Nat) (dataloader : DataLoader α) (shuffled : List Nat)
    (trainee : Trainee ω α) : Option (DataLoader α × Trainee ω α) :=
  Loop.run (turn settings) fuel (dataloader.reset shuffled, { trainee with loss := ((100 : Nat) : α) })

def evaluate (settings : Settings ω α) (subsets : Subsets α) (trainee : Trainee ω α) : Option (Trainee ω α) := do
  let (valPredictions, model) ← trainee.model.forward settings.coefficients subsets.valIn
  let _ ← DatasetUtils.calculateAccuracy settings.threshold valPredictions subsets.valTgt
  some { trainee with model }

def epochs (settings : Settings ω α) (evaluation : Trainee ω α → Option (Trainee ω α)) (fuel : Nat) :
    Nat → List (List Nat) → DataLoader α → Trainee ω α → Option (Trainee ω α)
  | _, [], _, trainee => some trainee
  | i, shuffled :: shuffles, dataloader, trainee => do
      let (dataloader, trainee) ← epoch settings fuel dataloader shuffled trainee
      if i % 10 = 0 ∨ i = settings.totalEpochs - 1 then do
        let trainee ← evaluation trainee
        if trainee.loss < settings.enough then some trainee
        else epochs settings evaluation fuel (i + 1) shuffles dataloader trainee
      else epochs settings evaluation fuel (i + 1) shuffles dataloader trainee

/-- `main`, up to the saving of the model: the data are shuffled once for the split and once by the constructor of the
loader, and then in each epoch. -/
def main (settings : Settings ω α) (globalInput globalTarget : Tensor2D α) (fuel : Nat) (split first : List Nat)
    (shuffles : List (List Nat)) (trainee : Trainee ω α) : Option (Trainee ω α) := do
  let subsets ← DatasetUtils.trainTestSplit globalInput globalTarget settings.valSamples split
  let dataloader := DataLoader.new subsets.trainIn subsets.trainTgt settings.batchSize true first
  epochs settings (evaluate settings subsets) fuel 0 shuffles dataloader trainee

end Training

end KnowledgeAcquisition.MachineLearning
