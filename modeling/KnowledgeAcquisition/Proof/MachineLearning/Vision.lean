import KnowledgeAcquisition.MachineLearning.Vision
import KnowledgeAcquisition.Proof.MachineLearning.Conv2DLayer
import KnowledgeAcquisition.Proof.MachineLearning.Layers
import Mathlib.Algebra.Order.Ring.Int
import Mathlib.Order.Bounds.Basic

/-!
# What the pipeline predicts

The pooled features are the greatest values of the convolution, flattening loses nothing, and the predictions are what the
head makes of the features.
-/

namespace KnowledgeAcquisition.Proof.MachineLearning
open KnowledgeAcquisition.MachineLearning Library Tensor4D
open Tensor2D (forEach store)

section Pooling

variable {α : Type*}

theorem forEach_greatest [LinearOrder α] {n : Nat} {s : α} {before : Set α} {V : Nat → Set α}
    {body : α → Nat → Option α} (start : IsGreatest before s)
    (step : ∀ i now seen, i < n → IsGreatest seen now →
      ∃ next, body now i = some next ∧ IsGreatest (seen ∪ V i) next) :
    ∃ last, forEach n s body = some last ∧ IsGreatest (before ∪ {v | ∃ i, i < n ∧ v ∈ V i}) last := by
  refine forEach_total (I := fun i now => IsGreatest (before ∪ {v | ∃ i', i' < i ∧ v ∈ V i'}) now) ?_ ?_
    fun _ inv => inv
  · have nothing : {v | ∃ i', i' < 0 ∧ v ∈ V i'} = (∅ : Set α) := by simp
    rwa [nothing, Set.union_empty]
  · intro i now inside inv
    obtain ⟨next, ran, greatest⟩ := step i now _ inside inv
    refine ⟨next, ran, ?_⟩
    have more : {v | ∃ i', i' < i + 1 ∧ v ∈ V i'} = {v | ∃ i', i' < i ∧ v ∈ V i'} ∪ V i := by
      ext v
      constructor
      · rintro ⟨i', early, member⟩
        cases Nat.lt_succ_iff_lt_or_eq.mp early with
        | inl before => exact Or.inl ⟨i', before, member⟩
        | inr here => exact Or.inr (here ▸ member)
      · rintro (⟨i', before, member⟩ | member)
        · exact ⟨i', Nat.lt_succ_of_lt before, member⟩
        · exact ⟨i, Nat.lt_succ_self i, member⟩
    rwa [more, ← Set.union_assoc]

variable {layer : MaxPool2DLayer α} {input : Tensor4D α} {batch channels height width b c oh ow : Nat}

def pooledSide (layer : MaxPool2DLayer α) (side : Nat) : Nat := (side - layer.poolSize) / layer.stride + 1

def windowOf (layer : MaxPool2DLayer α) (input : Tensor4D α) (b c oh ow : Nat) : Set α :=
  {v | ∃ kh, kh < layer.poolSize ∧ ∃ kw, kw < layer.poolSize ∧
    elementAt input b c (oh * layer.stride + kh) (ow * layer.stride + kw) = some v}

/-- Some window fits into the images, whose sides are numbers of the type `size_t`. -/
structure Pools (layer : MaxPool2DLayer α) (height width : Nat) : Prop where
  pool_pos : 0 < layer.poolSize
  stride_pos : 0 < layer.stride
  pool_le_height : layer.poolSize ≤ height
  pool_le_width : layer.poolSize ≤ width
  height_lt : height < 2 ^ 64
  width_lt : width < 2 ^ 64

theorem pooledSide_le {side : Nat} (positive : 0 < layer.poolSize) (covered : layer.poolSize ≤ side) :
    pooledSide layer side ≤ side := by
  have quotient := Nat.div_le_self (side - layer.poolSize) layer.stride
  unfold pooledSide
  omega

theorem window_lt {side o k : Nat} (covered : layer.poolSize ≤ side) (inside : o < pooledSide layer side)
    (within : k < layer.poolSize) : o * layer.stride + k < side := by
  have bound : o * layer.stride ≤ side - layer.poolSize :=
    Nat.le_trans (Nat.mul_le_mul_right _ (Nat.le_of_lt_succ inside)) (Nat.div_mul_le_self _ _)
  omega

theorem current_eq {side o k : Nat} (small : side < 2 ^ 64) (covered : layer.poolSize ≤ side)
    (inside : o < pooledSide layer side) (within : k < layer.poolSize) :
    sizeT (sizeT (o * layer.stride) + k) = o * layer.stride + k := by
  have bound := window_lt covered inside within
  unfold sizeT
  omega

variable [Zero α] [LinearOrder α]

omit [Zero α] [LinearOrder α] in
theorem pool_outSize {side : Nat} (small : side < 2 ^ 64) (positive : 0 < layer.poolSize)
    (covered : layer.poolSize ≤ side) : layer.outSize side = pooledSide layer side := by
  have difference : subT side layer.poolSize = side - layer.poolSize := by
    unfold subT sizeT
    omega
  rw [MaxPool2DLayer.outSize, difference]
  apply Nat.mod_eq_of_lt
  exact Nat.lt_of_le_of_lt (pooledSide_le positive covered) small

omit [Zero α] in
theorem windowMax_greatest (negInfinity : α) (shape : HasShape batch channels height width input) (pools : Pools layer height width)
    (inB : b < batch) (inC : c < channels) (inOh : oh < pooledSide layer height) (inOw : ow < pooledSide layer width) :
    ∃ peak, layer.windowMax negInfinity input b c oh ow = some peak ∧
      IsGreatest (insert negInfinity (windowOf layer input b c oh ow)) peak := by
  have start : IsGreatest {negInfinity} negInfinity := isGreatest_singleton
  rw [← Set.singleton_union]
  apply forEach_greatest start
  intro kh now seen inKh greatest
  apply forEach_greatest (V := fun kw =>
    {v | elementAt input b c (oh * layer.stride + kh) (ow * layer.stride + kw) = some v}) greatest
  intro kw now seen inKw greatest
  have inH := window_lt pools.pool_le_height inOh inKh
  have inW := window_lt pools.pool_le_width inOw inKw
  obtain ⟨pixel, found⟩ := shape.element inB inC inH inW
  have here : {v | some pixel = some v} = ({pixel} : Set α) := by
    ext v
    exact Option.some_inj.trans eq_comm
  refine ⟨max pixel now, ?_, ?_⟩
  · simp only [current_eq pools.height_lt pools.pool_le_height inOh inKh,
      current_eq pools.width_lt pools.pool_le_width inOw inKw, shape.height_eq, shape.width_eq]
    rw [if_pos ⟨inH, inW⟩, shape.constructed.atValue_eq found, max_comm, max_def_lt]
    rfl
  · rw [found, here, Set.union_singleton]
    exact greatest.insert pixel

theorem pool_forward (negInfinity : α) (shape : HasShape batch channels height width input)
    (pools : Pools layer height width) :
    ∃ output, layer.forward negInfinity input = some (output, { layer with inputCache := input }) ∧
      HasShape batch channels (pooledSide layer height) (pooledSide layer width) output ∧
        ∀ b c oh ow, b < batch → c < channels → oh < pooledSide layer height → ow < pooledSide layer width →
          ∃ peak, elementAt output b c oh ow = some peak ∧
            IsGreatest (insert negInfinity (windowOf layer input b c oh ow)) peak := by
  have fewer : batch * channels * pooledSide layer height * pooledSide layer width ≤ maxSize := by
    have rows := pooledSide_le pools.pool_pos pools.pool_le_height
    have cols := pooledSide_le pools.pool_pos pools.pool_le_width
    calc batch * channels * pooledSide layer height * pooledSide layer width
        ≤ batch * channels * height * width := Nat.mul_le_mul (Nat.mul_le_mul_left _ rows) cols
      _ ≤ maxSize := shape.fits
  obtain ⟨blank, made, blankShape⟩ := @new_hasShape α _ _ _ _ 0 fewer
  obtain ⟨output, assigned, outputShape, element⟩ := assignEach_spec blankShape fun b c oh ow inB inC inOh inOw =>
    have ⟨peak, found, _⟩ := windowMax_greatest negInfinity shape pools inB inC inOh inOw
    ⟨peak, found⟩
  refine ⟨output, ?_, outputShape, ?_⟩
  · rw [MaxPool2DLayer.forward, if_neg (Nat.ne_of_gt pools.stride_pos)]
    have height_eq := pool_outSize pools.height_lt pools.pool_pos pools.pool_le_height
    have width_eq := pool_outSize pools.width_lt pools.pool_pos pools.pool_le_width
    simp only [MaxPool2DLayer.outSize] at height_eq width_eq
    simp only [MaxPool2DLayer.outSize, shape.batch_eq, shape.channels_eq, shape.height_eq, shape.width_eq, height_eq,
      width_eq, made, Option.bind_eq_bind, Option.bind_some]
    exact congrArg (Option.bind · _) assigned
  · intro b c oh ow inB inC inOh inOw
    obtain ⟨peak, found, greatest⟩ := windowMax_greatest negInfinity shape pools inB inC inOh inOw
    exact ⟨peak, (element b c oh ow inB inC inOh inOw).trans found, greatest⟩

end Pooling

/-! ## Flattening -/

section Flattening

variable {α : Type*} {tensor : Tensor4D α} {gradient : Tensor2D α} {batch channels height width : Nat}

theorem HasShape.eq_of_data {other : Tensor4D α} (shape : HasShape batch channels height width tensor)
    (shape' : HasShape batch channels height width other) (data : tensor.data = other.data) : tensor = other := by
  obtain ⟨⟨strideB, strideC, strideH, -, -⟩, batch_eq, channels_eq, height_eq, width_eq, -⟩ := shape
  obtain ⟨⟨strideB', strideC', strideH', -, -⟩, batch_eq', channels_eq', height_eq', width_eq', -⟩ := shape'
  cases tensor
  cases other
  simp_all

theorem IsRowMajor.eq_of_data {rows cols : Nat} {matrix other : Tensor2D α} (rowMajor : IsRowMajor rows cols matrix)
    (rowMajor' : IsRowMajor rows cols other) (data : matrix.data = other.data) : matrix = other := by
  obtain ⟨rows_eq, cols_eq, straight, -, -⟩ := rowMajor
  obtain ⟨rows_eq', cols_eq', straight', -, -⟩ := rowMajor'
  cases matrix
  cases other
  simp_all

def flattened (batch features : Nat) (tensor : Tensor4D α) : Tensor2D α :=
  { rows := batch, cols := features, data := tensor.data }

def cacheOf (batch channels height width : Nat) : FlattenLayer :=
  { cachedBatch := batch, cachedChannels := channels, cachedHeight := height, cachedWidth := width }

theorem flattened_rowMajor (shape : HasShape batch channels height width tensor) :
    IsRowMajor batch (channels * height * width) (flattened batch (channels * height * width) tensor) := by
  have count : batch * channels * height * width = batch * (channels * height * width) := by ring
  exact ⟨rfl, rfl, rfl, shape.length_eq.trans count, count ▸ shape.fits⟩

variable [Zero α]

theorem flatten_forward (layer : FlattenLayer) (shape : HasShape batch channels height width tensor)
    (features : channels * height * width ≤ maxSize) : layer.forward tensor =
      some (flattened batch (channels * height * width) tensor, cacheOf batch channels height width) := by
  have target := flattened_rowMajor shape
  generalize count : channels * height * width = total at features target
  obtain ⟨blank, made, blankRowMajor⟩ : ∃ blank : Tensor2D α, Tensor2D.new batch total 0 = some blank ∧
      IsRowMajor batch total blank := by
    have size : sizeT (batch * total) = batch * total := sizeT_eq target.fits
    refine ⟨_, if_neg (not_lt.mpr (size.symm ▸ target.fits)), rfl, rfl, rfl, ?_, target.fits⟩
    rw [List.length_replicate, size]
  have length : tensor.data.length = batch * total := target.length_eq
  -- The elements before `i` have been copied.
  obtain ⟨output, ran, outputRowMajor, copied⟩ : ∃ output, (forEach (batch * total) blank fun output i => do
      let value ← tensor.data[i]?
      output.atAssign (i / total) (i % total) value) = some output ∧ IsRowMajor batch total output ∧
        ∀ k, k < batch * total → output.data[k]? = tensor.data[k]? := by
    refine forEach_total (I := fun i (now : Tensor2D α) => IsRowMajor batch total now ∧
      ∀ k, k < i → now.data[k]? = tensor.data[k]?) ?_ ?_ fun _ inv => inv
    · exact ⟨blankRowMajor, fun k early => absurd early (Nat.not_lt_zero k)⟩
    · rintro i now inside ⟨nowRowMajor, copied⟩
      obtain ⟨row, col, whole⟩ := flat_split inside
      have here : i < tensor.data.length := length ▸ inside
      have there : i < now.data.length := nowRowMajor.length_eq ▸ inside
      refine ⟨{ now with data := now.data.set i tensor.data[i] }, ?_, ?_, ?_⟩
      · rw [List.getElem?_eq_getElem here, Option.bind_eq_bind, Option.bind_some, Tensor2D.atAssign,
          nowRowMajor.atIndex_eq row col, whole, Option.bind_some, store, if_pos there]
        rfl
      · exact nowRowMajor.replace (List.length_set.trans nowRowMajor.length_eq)
      · intro k early
        cases Nat.lt_succ_iff_lt_or_eq.mp early with
        | inl before =>
            rw [List.getElem?_set_ne (Nat.ne_of_gt before)]
            exact copied k before
        | inr same =>
            rw [same, List.getElem?_set_self there, List.getElem?_eq_getElem here]
  have same : output = flattened batch total tensor := by
    apply outputRowMajor.eq_of_data target
    apply List.ext_getElem?
    intro k
    by_cases inside : k < batch * total
    · exact copied k inside
    · rw [List.getElem?_eq_none (outputRowMajor.length_eq ▸ not_lt.mp inside),
        List.getElem?_eq_none (target.length_eq ▸ not_lt.mp inside)]
  rw [FlattenLayer.forward]
  simp only [shape.batch_eq, shape.channels_eq, shape.height_eq, shape.width_eq, count, sizeT_eq features,
    sizeT_eq target.fits, made, Option.bind_eq_bind, Option.bind_some]
  rw [← same]
  exact congrArg (Option.bind · _) ran

theorem flatten_backward (gradientRowMajor : IsRowMajor batch (channels * height * width) gradient)
    (features : channels * height * width ≤ maxSize) :
    ∃ dInput, (cacheOf batch channels height width).backward gradient = some dInput ∧
      HasShape batch channels height width dInput ∧ dInput.data = gradient.data := by
  have count : batch * channels * height * width = batch * (channels * height * width) := by ring
  have fits : batch * channels * height * width ≤ maxSize := count ▸ gradientRowMajor.fits
  obtain ⟨blank, made, shape⟩ := @new_hasShape α _ _ _ _ 0 fits
  have length : blank.data.length = gradient.data.length :=
    shape.length_eq.trans (count.trans gradientRowMajor.length_eq.symm)
  have reads : ∀ k, k < blank.data.length → gradient.atValue (k / (channels * height * width))
      (k % (channels * height * width)) = some (gradient.data.getD k 0) := by
    intro k inside
    rw [length] at inside
    obtain ⟨row, col, whole⟩ := flat_split (gradientRowMajor.length_eq ▸ inside)
    rw [Tensor2D.atValue, gradientRowMajor.atIndex_eq row col, whole, Option.bind_some, List.getD_eq_getElem?_getD, List.getElem?_eq_getElem inside]
    rfl
  obtain ⟨data, ran, copiedLength, copied⟩ := assignLoop_spec reads
  have same : data = gradient.data := by
    apply List.ext_getElem?
    intro k
    by_cases inside : k < blank.data.length
    · rw [copied k inside, List.getD_eq_getElem?_getD, List.getElem?_eq_getElem (length ▸ inside)]
      rfl
    · rw [List.getElem?_eq_none (copiedLength ▸ not_lt.mp inside), List.getElem?_eq_none (length ▸ not_lt.mp inside)]
  refine ⟨{ blank with data }, ?_, ?_, same⟩
  · rw [FlattenLayer.backward, cacheOf]
    simp only [made, sizeT_eq fits, sizeT_eq features, Option.bind_eq_bind, Option.bind_some]
    rw [shape.length_eq] at ran
    exact congrArg (Option.bind · _) ran
  · obtain ⟨⟨strideB, strideC, strideH, blankLength, blankFits⟩, batch_eq, channels_eq, height_eq, width_eq, -⟩ := shape
    exact ⟨⟨strideB, strideC, strideH, copiedLength.trans blankLength, copiedLength ▸ blankFits⟩, batch_eq, channels_eq,
      height_eq, width_eq, fits⟩

theorem flatten_round_trip (layer : FlattenLayer) (shape : HasShape batch channels height width tensor)
    (features : channels * height * width ≤ maxSize) :
    ∃ output after, layer.forward tensor = some (output, after) ∧ IsRowMajor batch (channels * height * width) output ∧
      after.backward output = some tensor ∧
        ∀ gradient : Tensor2D α, IsRowMajor batch (channels * height * width) gradient →
          ∃ dInput, after.backward gradient = some dInput ∧ HasShape batch channels height width dInput ∧
            ∀ earlier : FlattenLayer, earlier.forward dInput = some (gradient, after) := by
  have target := flattened_rowMajor shape
  refine ⟨_, _, flatten_forward layer shape features, target, ?_, ?_⟩
  · obtain ⟨dInput, ran, dShape, data⟩ := flatten_backward target features
    rw [ran, dShape.eq_of_data shape data]
  · intro gradient gradientRowMajor
    obtain ⟨dInput, ran, dShape, data⟩ := flatten_backward gradientRowMajor features
    refine ⟨dInput, ran, dShape, ?_⟩
    intro earlier
    rw [flatten_forward earlier dShape features, (flattened_rowMajor dShape).eq_of_data gradientRowMajor data]

theorem flatten_round_trip_four : ∃ output after,
    (cacheOf 0 0 0 0).forward
        ({ batch := 2, channels := 1, height := 1, width := 2, strideB := 2, strideC := 2, strideH := 2,
           data := [1, 2, 3, 4] } : Tensor4D Int) = some (output, after) ∧ IsRowMajor 2 (1 * 1 * 2) output ∧
      after.backward output = some { batch := 2, channels := 1, height := 1, width := 2, strideB := 2, strideC := 2,
                                     strideH := 2, data := [1, 2, 3, 4] } ∧
        ∀ gradient : Tensor2D Int, IsRowMajor 2 (1 * 1 * 2) gradient →
          ∃ dInput, after.backward gradient = some dInput ∧ HasShape 2 1 1 2 dInput ∧
            ∀ earlier : FlattenLayer, earlier.forward dInput = some (gradient, after) :=
  flatten_round_trip _ ⟨⟨rfl, rfl, rfl, rfl, by decide⟩, rfl, rfl, rfl, rfl, by decide⟩ (by decide)

end Flattening

/-! ## The pipeline -/

section Pipeline

theorem sum_range_mul {α : Type*} [AddCommMonoid α] (f : Nat → α) (m n : Nat) :
    ∑ x ∈ Finset.range (m * n), f x = ∑ i ∈ Finset.range m, ∑ j ∈ Finset.range n, f (i * n + j) := by
  induction m with
  | zero => simp
  | succ m ih => rw [Nat.succ_mul, Finset.sum_range_add, Finset.sum_range_succ, ih]

variable {α : Type*} {tensor next : Tensor4D α} {batch channels height width : Nat}

theorem atAssign_hasShape {b c h w : Nat} {value : α} (shape : HasShape batch channels height width tensor)
    (assigned : tensor.atAssign b c h w value = some next) : HasShape batch channels height width next := by
  obtain ⟨data, stored, rfl⟩ := Option.map_eq_some_iff.mp assigned
  have length := store_length stored
  obtain ⟨⟨strideB, strideC, strideH, counted, bounded⟩, batch_eq, channels_eq, height_eq, width_eq, fits⟩ := shape
  exact ⟨⟨strideB, strideC, strideH, length.trans counted, length ▸ bounded⟩, batch_eq, channels_eq, height_eq,
    width_eq, fits⟩

theorem assignEach_hasShape {n m k l : Nat} {value : Nat → Nat → Nat → Nat → Option α}
    (shape : HasShape batch channels height width tensor)
    (ran : assignEach n m k l value tensor = some next) : HasShape batch channels height width next := by
  refine forEach_keeps shape ?_ ran
  intro b now next shape ran
  refine forEach_keeps shape ?_ ran
  intro c now next shape ran
  refine forEach_keeps shape ?_ ran
  intro h now next shape ran
  refine forEach_keeps shape ?_ ran
  intro w now next shape ran
  obtain ⟨assigned, _, ran⟩ := Option.bind_eq_some_iff.mp ran
  exact atAssign_hasShape shape ran

variable [CommRing α] {layer : Conv2DLayer α} {input : Tensor4D α}

theorem conv_forward (accepts : Accepts layer input)
    (inputFits : input.batch * input.channels * input.height * input.width ≤ maxSize)
    (fits : input.batch * layer.outChannels * sideOf layer input.height * sideOf layer input.width ≤ maxSize) :
    ∃ output after, layer.forward input = some (output, after) ∧
      HasShape input.batch layer.outChannels (sideOf layer input.height) (sideOf layer input.width) output ∧
        ∀ b oc oh ow, b < input.batch → oc < layer.outChannels → oh < sideOf layer input.height →
          ow < sideOf layer input.width → elementAt output b oc oh ow = some (convolution layer input b oc oh ow) := by
  have within : WithinInput layer input := (withinInput_iff accepts).mpr (Or.inr (Or.inr (accepts.channels_eq ▸ inputFits)))
  obtain ⟨-, output, after, ran, -, -, -, -, elements⟩ := convolves_of_fits accepts within fits
  refine ⟨output, after, ran, ?_, elements⟩
  have height_eq := outSize_eq accepts.height_lt accepts.padding_lt accepts.height_covered
  have width_eq := outSize_eq accepts.width_lt accepts.padding_lt accepts.width_covered
  obtain ⟨blank, made, shape⟩ := @new_hasShape α _ _ _ _ 0 fits
  rw [forward_eq accepts.stride_pos, height_eq, width_eq, made, Option.bind_some] at ran
  obtain ⟨filled, assigned, done⟩ := Option.bind_eq_some_iff.mp ran
  cases done
  exact assignEach_hasShape shape assigned

variable [LinearOrder α] {pipeline : VisionPipeline α} {image : Tensor4D α} {outFeatures : Nat}

def pooledHeight (pipeline : VisionPipeline α) (image : Tensor4D α) : Nat :=
  pooledSide pipeline.poolLayer (sideOf pipeline.convLayer image.height)

def pooledWidth (pipeline : VisionPipeline α) (image : Tensor4D α) : Nat :=
  pooledSide pipeline.poolLayer (sideOf pipeline.convLayer image.width)

def convolvedIn (pipeline : VisionPipeline α) (image : Tensor4D α) (b c oh ow : Nat) : Set α :=
  {v | ∃ kh, kh < pipeline.poolLayer.poolSize ∧ ∃ kw, kw < pipeline.poolLayer.poolSize ∧
    v = convolution pipeline.convLayer image b c (oh * pipeline.poolLayer.stride + kh)
      (ow * pipeline.poolLayer.stride + kw)}

/-- The sizes of the layers match, and every tensor on the way fits into a vector. -/
structure Processes (pipeline : VisionPipeline α) (image : Tensor4D α) (outFeatures : Nat) : Prop where
  accepts : Accepts pipeline.convLayer image
  image_fits : image.batch * image.channels * image.height * image.width ≤ maxSize
  maps_fit : image.batch * pipeline.convLayer.outChannels * sideOf pipeline.convLayer image.height *
    sideOf pipeline.convLayer image.width ≤ maxSize
  pools : Pools pipeline.poolLayer (sideOf pipeline.convLayer image.height) (sideOf pipeline.convLayer image.width)
  features_fit : pipeline.convLayer.outChannels * pooledHeight pipeline image * pooledWidth pipeline image ≤ maxSize
  head : HasFeatures (pipeline.convLayer.outChannels * pooledHeight pipeline image * pooledWidth pipeline image)
    outFeatures pipeline.classifierHead
  predictions_fit : image.batch * outFeatures ≤ maxSize

omit [LinearOrder α] in
theorem flattened_element {b c h w : Nat} {value : α} (shape : HasShape batch channels height width tensor)
    (found : elementAt tensor b c h w = some value) :
    element (flattened batch (channels * height * width) tensor) b ((c * height + h) * width + w) = value := by
  obtain ⟨⟨inB, inC, inH, inW⟩, -⟩ := elementAt_eq_some found
  have position : b * (channels * height * width) + ((c * height + h) * width + w) = offset channels height width b c h w := by
    unfold offset
    ring
  rw [elementAt, if_pos ⟨inB, inC, inH, inW⟩] at found
  rw [shape.batch_eq] at inB
  rw [shape.channels_eq] at inC found
  rw [shape.height_eq] at inH found
  rw [shape.width_eq] at inW found
  have col : (c * height + h) * width + w < channels * height * width := flat_lt (flat_lt inC inH) inW
  have read := (flattened_rowMajor shape).holds.element b _ inB col
  rw [position] at read
  exact Option.some.inj (read.symm.trans found)

omit [LinearOrder α] in
theorem head_forward {head : DenseLayer α} {features : Nat} {matrix : Tensor2D α}
    (sizes : HasFeatures features outFeatures head) (rowMajor : IsRowMajor batch features matrix)
    (fits : batch * outFeatures ≤ maxSize) :
    ∃ output, head.forward matrix = some (output, { head with inputCache := matrix }) ∧
      IsRowMajor batch outFeatures output ∧ ∀ b k, b < batch → k < outFeatures →
        element output b k = element head.bias 0 k + ∑ x ∈ Finset.range features, element matrix b x * element head.weights x k := by
  obtain ⟨output, ran, outputRowMajor, output_eq⟩ := forward_spec sizes rowMajor fits
  refine ⟨output, ran, outputRowMajor, ?_⟩
  intro b k inB inK
  have entry := congrFun (congrFun output_eq ⟨b, inB⟩) ⟨k, inK⟩
  rw [Matrix.add_apply, Matrix.mul_apply, Matrix.mul_apply, Fin.sum_univ_one, ones, one_mul] at entry
  simp only [matrixOf] at entry
  rw [Fin.sum_univ_eq_sum_range fun x => element matrix b x * element head.weights x k, add_comm] at entry
  exact entry

omit [CommRing α] in
theorem isGreatest_of_insert {lowest peak : α} {values : Set α} (greatest : IsGreatest (insert lowest values) peak)
    (some_value : values.Nonempty) (below : ∀ v ∈ values, lowest ≤ v) : IsGreatest values peak := by
  have bounds : peak ∈ upperBounds values := fun v member => greatest.2 (Set.mem_insert_of_mem lowest member)
  refine ⟨?_, bounds⟩
  cases greatest.1 with
  | inl here =>
      obtain ⟨v, member⟩ := some_value
      have same : v = peak := le_antisymm (bounds member) (here ▸ below v member)
      exact same ▸ member
  | inr member => exact member

theorem pipeline_predicts {negInfinity : α} (processes : Processes pipeline image outFeatures)
    (lowest : ∀ b c y x, b < image.batch → c < pipeline.convLayer.outChannels →
      y < sideOf pipeline.convLayer image.height → x < sideOf pipeline.convLayer image.width →
        negInfinity ≤ convolution pipeline.convLayer image b c y x) :
    ∃ predictions after, ∃ feature : Nat → Nat → Nat → Nat → α,
      pipeline.forward negInfinity image = some (predictions, after) ∧
      IsRowMajor image.batch outFeatures predictions ∧
      (∀ b c oh ow, b < image.batch → c < pipeline.convLayer.outChannels → oh < pooledHeight pipeline image →
        ow < pooledWidth pipeline image → IsGreatest (convolvedIn pipeline image b c oh ow) (feature b c oh ow)) ∧
      ∀ b k, b < image.batch → k < outFeatures → element predictions b k =
        element pipeline.classifierHead.bias 0 k + ∑ c ∈ Finset.range pipeline.convLayer.outChannels,
          ∑ oh ∈ Finset.range (pooledHeight pipeline image), ∑ ow ∈ Finset.range (pooledWidth pipeline image),
            feature b c oh ow * element pipeline.classifierHead.weights
              ((c * pooledHeight pipeline image + oh) * pooledWidth pipeline image + ow) k := by
  obtain ⟨maps, convLayer, convolved, mapsShape, mapsElement⟩ :=
    conv_forward processes.accepts processes.image_fits processes.maps_fit
  obtain ⟨pooled, poolRan, shape, peaks⟩ := pool_forward negInfinity mapsShape processes.pools
  have pooledShape : HasShape image.batch pipeline.convLayer.outChannels (pooledHeight pipeline image)
    (pooledWidth pipeline image) pooled := shape
  have flattenRan := flatten_forward pipeline.flattenLayer pooledShape processes.features_fit
  obtain ⟨predictions, headRan, predictionsRowMajor, outputs⟩ :=
    head_forward processes.head (flattened_rowMajor pooledShape) processes.predictions_fit
  have ran : pipeline.forward negInfinity image = some (predictions,
      { convLayer := convLayer
        poolLayer := { pipeline.poolLayer with inputCache := maps }
        flattenLayer := cacheOf image.batch pipeline.convLayer.outChannels (pooledHeight pipeline image)
          (pooledWidth pipeline image)
        classifierHead := { pipeline.classifierHead with
          inputCache := flattened image.batch (pipeline.convLayer.outChannels * pooledHeight pipeline image *
            pooledWidth pipeline image) pooled } }) := by
    simp only [VisionPipeline.forward, convolved, poolRan, flattenRan, headRan, Option.bind_eq_bind, Option.bind_some]
  refine ⟨predictions, _, fun b c oh ow => (elementAt pooled b c oh ow).getD 0, ran, predictionsRowMajor, ?_, ?_⟩
  · intro b c oh ow inB inC inOh inOw
    obtain ⟨peak, found, greatest⟩ := peaks b c oh ow inB inC inOh inOw
    have inMaps : ∀ kh kw, kh < pipeline.poolLayer.poolSize → kw < pipeline.poolLayer.poolSize →
        oh * pipeline.poolLayer.stride + kh < sideOf pipeline.convLayer image.height ∧
          ow * pipeline.poolLayer.stride + kw < sideOf pipeline.convLayer image.width := fun kh kw inKh inKw =>
      ⟨window_lt processes.pools.pool_le_height inOh inKh, window_lt processes.pools.pool_le_width inOw inKw⟩
    have same : windowOf pipeline.poolLayer maps b c oh ow = convolvedIn pipeline image b c oh ow := by
      ext v
      constructor
      · rintro ⟨kh, inKh, kw, inKw, member⟩
        obtain ⟨inH, inW⟩ := inMaps kh kw inKh inKw
        rw [mapsElement b c _ _ inB inC inH inW] at member
        exact ⟨kh, inKh, kw, inKw, (Option.some.inj member).symm⟩
      · rintro ⟨kh, inKh, kw, inKw, rfl⟩
        obtain ⟨inH, inW⟩ := inMaps kh kw inKh inKw
        exact ⟨kh, inKh, kw, inKw, mapsElement b c _ _ inB inC inH inW⟩
    rw [same] at greatest
    simp only [found, Option.getD_some]
    apply isGreatest_of_insert greatest
    · exact ⟨_, 0, processes.pools.pool_pos, 0, processes.pools.pool_pos, rfl⟩
    · rintro v ⟨kh, inKh, kw, inKw, rfl⟩
      obtain ⟨inH, inW⟩ := inMaps kh kw inKh inKw
      exact lowest b c _ _ inB inC inH inW
  · intro b k inB inK
    rw [outputs b k inB inK, sum_range_mul, sum_range_mul]
    congr 1
    apply Finset.sum_congr rfl
    intro c inC
    apply Finset.sum_congr rfl
    intro oh inOh
    apply Finset.sum_congr rfl
    intro ow inOw
    obtain ⟨peak, found⟩ := pooledShape.element inB (Finset.mem_range.mp inC) (Finset.mem_range.mp inOh)
      (Finset.mem_range.mp inOw)
    simp only [flattened_element pooledShape found, found, Option.getD_some]

theorem pipeline_predicts_doubled :
    let pipeline : VisionPipeline Int :=
      { convLayer :=
          { inChannels := 1, outChannels := 1, kernelSize := 1, stride := 1, padding := 0
            weights := { batch := 1, channels := 1, height := 1, width := 1, strideB := 1, strideC := 1, strideH := 1,
                         data := [2] }
            bias := { batch := 1, channels := 1, height := 1, width := 1, strideB := 1, strideC := 1, strideH := 1,
                      data := [0] }
            inputCache := { batch := 0, channels := 0, height := 0, width := 0, strideB := 0, strideC := 0, strideH := 0,
                            data := [] } }
        poolLayer :=
          { poolSize := 2, stride := 2
            inputCache := { batch := 0, channels := 0, height := 0, width := 0, strideB := 0, strideC := 0, strideH := 0,
                            data := [] } }
        flattenLayer := cacheOf 0 0 0 0
        classifierHead :=
          { weights := { rows := 1, cols := 1, data := [3] }
            bias := { rows := 1, cols := 1, data := [5] }
            inputCache := { rows := 0, cols := 0, data := [] }
            dWeights := { rows := 1, cols := 1, data := [0] }
            dBias := { rows := 1, cols := 1, data := [0] } } }
    let image : Tensor4D Int :=
      { batch := 1, channels := 1, height := 2, width := 2, strideB := 4, strideC := 4, strideH := 2,
        data := [1, 7, 4, 2] }
    ∃ predictions after, ∃ feature : Nat → Nat → Nat → Nat → Int,
      pipeline.forward (-100) image = some (predictions, after) ∧ IsRowMajor 1 1 predictions ∧
      (∀ b c oh ow, b < 1 → c < 1 → oh < pooledHeight pipeline image → ow < pooledWidth pipeline image →
        IsGreatest (convolvedIn pipeline image b c oh ow) (feature b c oh ow)) ∧
      ∀ b k, b < 1 → k < 1 → element predictions b k =
        element pipeline.classifierHead.bias 0 k + ∑ c ∈ Finset.range 1,
          ∑ oh ∈ Finset.range (pooledHeight pipeline image), ∑ ow ∈ Finset.range (pooledWidth pipeline image),
            feature b c oh ow * element pipeline.classifierHead.weights
              ((c * pooledHeight pipeline image + oh) * pooledWidth pipeline image + ow) k := by
  intro pipeline image
  have one : ∀ value : Int, IsRowMajor 1 1 ({ rows := 1, cols := 1, data := [value] } : Tensor2D Int) :=
    fun value => ⟨rfl, rfl, rfl, rfl, by decide⟩
  have features : pipeline.convLayer.outChannels * pooledHeight pipeline image * pooledWidth pipeline image = 1 := by
    decide
  have side : sideOf pipeline.convLayer 2 = 2 := by decide
  have processes : Processes pipeline image 1 :=
    { accepts := ⟨⟨⟨rfl, rfl, rfl, rfl, by decide⟩, rfl, rfl, rfl, rfl, by decide⟩,
        ⟨⟨rfl, rfl, rfl, rfl, by decide⟩, rfl, rfl, rfl, rfl, by decide⟩, ⟨rfl, rfl, rfl, rfl, by decide⟩, rfl,
        by decide, by decide, by decide, by decide, by decide, by decide⟩
      image_fits := by decide
      maps_fit := by decide
      pools := ⟨by decide, by decide, by decide, by decide, by decide, by decide⟩
      features_fit := by decide
      head := by
        rw [features]
        exact ⟨one 3, one 5, one 0, one 0⟩
      predictions_fit := by decide }
  apply pipeline_predicts processes
  intro b c y x inB inC inH inW
  have values : ∀ b : Fin 1, ∀ c : Fin 1, ∀ y : Fin 2, ∀ x : Fin 2,
      (-100 : Int) ≤ convolution pipeline.convLayer image b c y x := by decide
  exact values ⟨b, inB⟩ ⟨c, inC⟩ ⟨y, side ▸ inH⟩ ⟨x, side ▸ inW⟩

end Pipeline

end KnowledgeAcquisition.Proof.MachineLearning
