import KnowledgeAcquisition.MachineLearning.Conv2DLayer
import KnowledgeAcquisition.MachineLearning.DenseLayer

/-!
# From images to predictions

`MaxPool2DLayer.h` and `FlattenLayer.h` of `laboratory/cpp/MachineLearning/include` over any type of elements, and the
layers that `example/beginner/04_test_full_pipeline.cpp` puts one behind the other.
-/

namespace KnowledgeAcquisition.MachineLearning
open Tensor2D (forEach store)

structure MaxPool2DLayer (α : Type*) where
  poolSize : Nat
  stride : Nat
  inputCache : Tensor4D α

namespace MaxPool2DLayer

variable {α : Type*} [Zero α] [LinearOrder α]

def outSize (layer : MaxPool2DLayer α) (side : Nat) : Nat := sizeT (subT side layer.poolSize / layer.stride + 1)

def windowMax (layer : MaxPool2DLayer α) (negInfinity : α) (input : Tensor4D α) (b c oh ow : Nat) : Option α :=
  forEach layer.poolSize negInfinity fun maxValue kh =>
    forEach layer.poolSize maxValue fun maxValue kw =>
      let currH := sizeT (sizeT (oh * layer.stride) + kh)
      let currW := sizeT (sizeT (ow * layer.stride) + kw)
      if currH < input.height ∧ currW < input.width then do
        let currentPixel ← input.atValue b c currH currW
        some (if currentPixel > maxValue then currentPixel else maxValue)
      else some maxValue

def forward (layer : MaxPool2DLayer α) (negInfinity : α) (input : Tensor4D α) :
    Option (Tensor4D α × MaxPool2DLayer α) :=
  let layer := { layer with inputCache := input }
  -- A division by zero.
  if layer.stride = 0 then none
  else do
    let outH := layer.outSize input.height
    let outW := layer.outSize input.width
    let output ← Tensor4D.new input.batch input.channels outH outW 0
    let output ← Tensor4D.assignEach input.batch input.channels outH outW (layer.windowMax negInfinity input) output
    some (output, layer)

end MaxPool2DLayer

structure FlattenLayer where
  cachedBatch : Nat
  cachedChannels : Nat
  cachedHeight : Nat
  cachedWidth : Nat
  deriving DecidableEq

namespace FlattenLayer

variable {α : Type*} [Zero α]

/-- `forward`, which caches the sizes of the input whatever the layer has cached before. -/
def forward (_layer : FlattenLayer) (input : Tensor4D α) : Option (Tensor2D α × FlattenLayer) := do
  let layer : FlattenLayer :=
    { cachedBatch := input.batch
      cachedChannels := input.channels
      cachedHeight := input.height
      cachedWidth := input.width }
  let totalFeatures := sizeT (input.channels * input.height * input.width)
  let output ← Tensor2D.new input.batch totalFeatures 0
  let output ← forEach (sizeT (input.batch * totalFeatures)) output fun output i => do
    let value ← input.data[i]?
    output.atAssign (i / totalFeatures) (i % totalFeatures) value
  some (output, layer)

def backward (layer : FlattenLayer) (incomingGradient : Tensor2D α) : Option (Tensor4D α) := do
  let dInput ← Tensor4D.new layer.cachedBatch layer.cachedChannels layer.cachedHeight layer.cachedWidth 0
  let totalElements := sizeT (layer.cachedBatch * layer.cachedChannels * layer.cachedHeight * layer.cachedWidth)
  let features := sizeT (layer.cachedChannels * layer.cachedHeight * layer.cachedWidth)
  let data ← forEach totalElements dInput.data fun data i => do
    let value ← incomingGradient.atValue (i / features) (i % features)
    store data i value
  some { dInput with data }

end FlattenLayer

structure VisionPipeline (α : Type*) where
  convLayer : Conv2DLayer α
  poolLayer : MaxPool2DLayer α
  flattenLayer : FlattenLayer
  classifierHead : DenseLayer α

namespace VisionPipeline

variable {α : Type*} [Zero α] [Add α] [Mul α] [LinearOrder α]

def forward (pipeline : VisionPipeline α) (negInfinity : α) (rawImage : Tensor4D α) :
    Option (Tensor2D α × VisionPipeline α) := do
  let (featureMaps, convLayer) ← pipeline.convLayer.forward rawImage
  let (pooledMaps, poolLayer) ← pipeline.poolLayer.forward negInfinity featureMaps
  let (flattenedVector, flattenLayer) ← pipeline.flattenLayer.forward pooledMaps
  let (outputPredictions, classifierHead) ← pipeline.classifierHead.forward flattenedVector
  some (outputPredictions, { convLayer, poolLayer, flattenLayer, classifierHead })

end VisionPipeline

end KnowledgeAcquisition.MachineLearning
