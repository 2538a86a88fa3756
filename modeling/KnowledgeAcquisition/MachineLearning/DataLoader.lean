import KnowledgeAcquisition.MachineLearning.Tensor2D

/-!
# Batches of training data

`DataLoader` of `laboratory/cpp/MachineLearning/include/DataLoader.h` over any type of elements. What `std::shuffle` leaves
is an argument. The sums of sizes stay at most the number of samples.
-/

namespace KnowledgeAcquisition.MachineLearning
open Tensor2D (forEach)

structure DataLoader (α : Type*) where
  inputs : Tensor2D α
  targets : Tensor2D α
  batchSize : Nat
  shuffle : Bool
  numSamples : Nat
  currentIndex : Nat
  indices : List Nat

namespace DataLoader

variable {α : Type*}

def reset (loader : DataLoader α) (shuffled : List Nat) : DataLoader α :=
  { loader with
    currentIndex := 0
    indices := if loader.shuffle then shuffled else loader.indices }

def new (inputData targetData : Tensor2D α) (batchSz : Nat) (shuffleData : Bool) (shuffled : List Nat) : DataLoader α :=
  let loader : DataLoader α :=
    { inputs := inputData
      targets := targetData
      batchSize := batchSz
      shuffle := shuffleData
      numSamples := inputData.rows
      currentIndex := 0
      indices := List.range inputData.rows }
  loader.reset shuffled

def hasNext (loader : DataLoader α) : Bool := loader.currentIndex < loader.numSamples

def copyRow (target source : Tensor2D α) (i row count : Nat) : Option (Tensor2D α) :=
  forEach count target fun target j => do
    let value ← source.atValue row j
    target.atAssign i j value

/-- `next_batch`, with the two tensors that it assigns if it returns true. -/
def nextBatch [Zero α] (loader : DataLoader α) : Option (Option (Tensor2D α × Tensor2D α) × DataLoader α) :=
  if !loader.hasNext then some (none, loader)
  else do
    let actualBatchSize := min loader.batchSize (loader.numSamples - loader.currentIndex)
    let numFeatures := loader.inputs.cols
    let numTargets := loader.targets.cols
    let batchInputs ← Tensor2D.new actualBatchSize numFeatures 0
    let batchTargets ← Tensor2D.new actualBatchSize numTargets 0
    let batch ← forEach actualBatchSize (batchInputs, batchTargets) fun (batchInputs, batchTargets) i =>
      (loader.indices[loader.currentIndex + i]?).bind fun originalRowIdx => do
        let batchInputs ← copyRow batchInputs loader.inputs i originalRowIdx numFeatures
        let batchTargets ← copyRow batchTargets loader.targets i originalRowIdx numTargets
        some (batchInputs, batchTargets)
    some (some batch, { loader with currentIndex := loader.currentIndex + actualBatchSize })

def nextBatches [Zero α] : Nat → DataLoader α → Option (List (Option (Tensor2D α × Tensor2D α)) × DataLoader α)
  | 0, loader => some ([], loader)
  | n + 1, loader => do
      let (batch, loader) ← loader.nextBatch
      let (batches, loader) ← nextBatches n loader
      some (batch :: batches, loader)

inductive Call where
  | nextBatch
  | reset (shuffled : List Nat)
  deriving DecidableEq

def step [Zero α] (loader : DataLoader α) : Call → Option (DataLoader α)
  | .nextBatch => loader.nextBatch.map Prod.snd
  | .reset shuffled => some (loader.reset shuffled)

end DataLoader

end KnowledgeAcquisition.MachineLearning
