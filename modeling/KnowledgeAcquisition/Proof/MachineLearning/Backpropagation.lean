import KnowledgeAcquisition.Proof.MachineLearning.Layers
import Mathlib.Tactic.LinearCombination

/-!
# Backpropagation

A stack is run over dual numbers, whose changes are the ones of the input and of the parameters. What `backward` leaves
in the layers and returns is the change of the output, seen through the gradient that it is given.
-/

namespace KnowledgeAcquisition.Proof.MachineLearning
open KnowledgeAcquisition.MachineLearning Library Tensor2D TrivSqZeroExt DualNumber

variable {α β : Type*} {rows cols batch a b c : Nat}

def mapTensor (f : α → β) (tensor : Tensor2D α) : Tensor2D β :=
  { rows := tensor.rows, cols := tensor.cols, data := tensor.data.map f, isTransposed := tensor.isTransposed }

def mapDense (f : α → β) (layer : DenseLayer α) : DenseLayer β :=
  { weights := mapTensor f layer.weights
    bias := mapTensor f layer.bias
    inputCache := mapTensor f layer.inputCache
    dWeights := mapTensor f layer.dWeights
    dBias := mapTensor f layer.dBias }

def mapLayer (f : α → β) : Layer α → Layer β
  | .dense layer => .dense (mapDense f layer)
  | .relu inputCache => .relu (mapTensor f inputCache)
  | .leakyReLU inputCache => .leakyReLU (mapTensor f inputCache)
  | .sigmoid outputCache => .sigmoid (mapTensor f outputCache)

theorem IsRowMajor.map {tensor : Tensor2D α} (f : α → β) (rowMajor : IsRowMajor rows cols tensor) :
    IsRowMajor rows cols (mapTensor f tensor) :=
  ⟨rowMajor.rows_eq, rowMajor.cols_eq, rowMajor.straight, (List.length_map f).trans rowMajor.length_eq, rowMajor.fits⟩

theorem matrixOf_map [CommRing α] [CommRing β] {tensor : Tensor2D α} (f : α → β) (rowMajor : IsRowMajor rows cols tensor) :
    matrixOf rows cols (mapTensor f tensor) = (matrixOf rows cols tensor).map f := by
  funext i j
  have read := (rowMajor.map f).holds.element i j i.isLt j.isLt
  rw [mapTensor, List.getElem?_map, rowMajor.holds.element i j i.isLt j.isLt] at read
  exact (Option.some.inj read).symm

theorem HasFeatures.map {layer : DenseLayer α} (f : α → β) (features : HasFeatures a b layer) :
    HasFeatures a b (mapDense f layer) :=
  ⟨features.weights.map f, features.bias.map f, features.dWeights.map f, features.dBias.map f⟩

/-- The two layers differ in their caches and gradients only. -/
def SameParameters : Layer α → Layer α → Prop
  | .dense layer, .dense other => layer.weights = other.weights ∧ layer.bias = other.bias
  | .relu _, .relu _ | .leakyReLU _, .leakyReLU _ | .sigmoid _, .sigmoid _ => True
  | _, _ => False

section Same

variable {layer other : Layer α} {layers others : Sequential α}

theorem SameParameters.map (f : α → β) (same : SameParameters layer other) :
    SameParameters (mapLayer f layer) (mapLayer f other) := by
  cases layer <;> cases other <;> simp_all [SameParameters, mapLayer, mapDense]

theorem SameParameters.trans {third : Layer α} (same : SameParameters layer other) (same' : SameParameters other third) :
    SameParameters layer third := by
  cases layer <;> cases other <;> cases third <;> simp_all [SameParameters]

theorem same_trans {third : Sequential α} (same : List.Forall₂ SameParameters layers others)
    (same' : List.Forall₂ SameParameters others third) : List.Forall₂ SameParameters layers third := by
  induction same generalizing third with
  | nil => exact same'
  | cons here _ ih =>
      cases same' with
      | cons here' rest' => exact .cons (here.trans here') (ih rest')

theorem same_map (f : α → β) (same : List.Forall₂ SameParameters layers others) :
    List.Forall₂ SameParameters (layers.map (mapLayer f)) (others.map (mapLayer f)) := by
  induction same with
  | nil => exact .nil
  | cons here _ ih => exact .cons (here.map f) ih

end Same

section Shapes

variable [Zero α]

def FromTo (a b : Nat) : Layer α → Prop
  | .dense layer => HasFeatures a b layer
  | _ => a = b

/-- Each layer takes as many features as the one before it gives, and no activation of a batch is too large. -/
inductive Stack (batch : Nat) : Nat → Nat → Sequential α → Prop where
  | nil (a : Nat) : Stack batch a a []
  | cons {a b c : Nat} {layer : Layer α} {layers : Sequential α} (shape : FromTo a b layer) (fits : batch * b ≤ maxSize)
      (rest : Stack batch b c layers) : Stack batch a c (layer :: layers)

end Shapes

variable [CommRing α]

def real (tensor : Tensor2D α[ε]) : Tensor2D α := mapTensor fst tensor

def realLayer (layer : Layer α[ε]) : Layer α := mapLayer fst layer

def realStack (layers : Sequential α[ε]) : Sequential α := layers.map realLayer

/-- The logistic function changes by `s(x) * (1 - s(x))` times the change of `x`. -/
def duals (coefficients : Coefficients α) : Coefficients α[ε] :=
  { leak := inl coefficients.leak
    logistic := extend coefficients.logistic fun x => coefficients.logistic x * (1 - coefficients.logistic x) }

theorem real_matrix {tensor : Tensor2D α[ε]} (rowMajor : IsRowMajor rows cols tensor) :
    matrixOf rows cols (real tensor) = base (matrixOf rows cols tensor) :=
  matrixOf_map fst rowMajor

theorem real_eq {tensor : Tensor2D α[ε]} {other : Tensor2D α} (rowMajor : IsRowMajor rows cols tensor)
    (otherRowMajor : IsRowMajor rows cols other)
    (same : matrixOf rows cols other = base (matrixOf rows cols tensor)) : other = real tensor :=
  otherRowMajor.eq_of_matrix (rowMajor.map fst) (same.trans (real_matrix rowMajor).symm)

theorem matrixOf_mem {tensor : Tensor2D α} (rowMajor : IsRowMajor rows cols tensor) (i : Fin rows) (j : Fin cols) :
    matrixOf rows cols tensor i j ∈ tensor.data :=
  List.mem_of_getElem? (rowMajor.holds.element i j i.isLt j.isLt)

def along (layer : Layer α[ε]) (gradients : Layer α) : α :=
  match layer, gradients with
  | .dense layer, .dense gradients =>
      pairing (matrixOf layer.weights.rows layer.weights.cols gradients.dWeights)
          (change (matrixOf layer.weights.rows layer.weights.cols layer.weights)) +
        pairing (matrixOf 1 layer.bias.cols gradients.dBias) (change (matrixOf 1 layer.bias.cols layer.bias))
  | _, _ => 0

def alongStack (layers : Sequential α[ε]) (gradients : Sequential α) : α :=
  (List.zipWith along layers gradients).sum

theorem along_dense {layer : DenseLayer α[ε]} (features : HasFeatures a b layer) (gradients : DenseLayer α) :
    along (.dense layer) (.dense gradients) =
      pairing (matrixOf a b gradients.dWeights) (change (matrixOf a b layer.weights)) +
        pairing (matrixOf 1 b gradients.dBias) (change (matrixOf 1 b layer.bias)) := by
  have resized : ∀ {r c r' c' : Nat} (tensor : Tensor2D α) (tensor' : Tensor2D α[ε]), r = r' → c = c' →
      pairing (matrixOf r c tensor) (change (matrixOf r c tensor')) =
        pairing (matrixOf r' c' tensor) (change (matrixOf r' c' tensor')) := by
    rintro r c r' c' tensor tensor' rfl rfl
    rfl
  rw [along, resized _ _ features.weights.rows_eq features.weights.cols_eq, resized _ _ rfl features.bias.cols_eq]

theorem real_inl (tensor : Tensor2D α) : mapTensor fst (mapTensor (inl : α → α[ε]) tensor) = tensor := by
  have id : (fst ∘ (inl : α → α[ε])) = id := rfl
  rw [mapTensor, mapTensor, List.map_map, id, List.map_id]

theorem change_affine (X : Matrix (Fin batch) (Fin a) α[ε]) (W : Matrix (Fin a) (Fin b) α[ε])
    (B : Matrix (Fin 1) (Fin b) α[ε]) : change (X * W + ones α[ε] batch * B) =
      change X * base W + base X * change W + ones α batch * change B := by
  have constant : change (ones α[ε] batch) = 0 := rfl
  have one : base (ones α[ε] batch) = ones α batch := rfl
  rw [change_add, change_mul, change_mul, constant, one, Matrix.zero_mul, add_zero, add_comm (base X * change W)]

theorem along_same {layer other : Layer α[ε]} (same : SameParameters layer other) (gradients : Layer α) :
    along layer gradients = along other gradients := by
  cases layer with
  | dense layer =>
      cases other with
      | dense other =>
          cases gradients with
          | dense gradients =>
              obtain ⟨weights, bias⟩ := same
              rw [along, along, weights, bias]
          | _ => rfl
      | _ => cases same
  | _ =>
      cases other with
      | dense other => cases same
      | _ => rfl

theorem alongStack_same {layers others : Sequential α[ε]} (same : List.Forall₂ SameParameters layers others)
    (gradients : Sequential α) : alongStack layers gradients = alongStack others gradients := by
  induction same generalizing gradients with
  | nil => rfl
  | cons here _ ih =>
      cases gradients with
      | nil => rfl
      | cons gradient gradients =>
          have rest := ih gradients
          unfold alongStack at rest ⊢
          simp [along_same here gradient, rest]

def slope (gradient : Tensor2D α) (changed : Tensor2D α[ε]) : α :=
  pairing (matrixOf gradient.rows gradient.cols gradient) (change (matrixOf gradient.rows gradient.cols changed))

theorem slope_eq {gradient : Tensor2D α} (rowMajor : IsRowMajor rows cols gradient) (changed : Tensor2D α[ε]) :
    slope gradient changed = pairing (matrixOf rows cols gradient) (change (matrixOf rows cols changed)) := by
  obtain ⟨rfl, rfl, -, -, -⟩ := rowMajor
  rfl

theorem FromTo.zeroGradients {layer : Layer α} (shape : FromTo a b layer) : FromTo a b layer.zeroGradients := by
  cases layer with
  | dense layer => exact HasFeatures.zeroGradients shape
  | _ => exact shape

theorem Stack.zeroGrad {layers : Sequential α} (stack : Stack batch a c layers) :
    Stack batch a c layers.zeroGrad := by
  induction stack with
  | nil a => exact .nil a
  | cons shape fits _ ih => exact .cons shape.zeroGradients fits ih

theorem same_zeroGrad (layers : Sequential α) : List.Forall₂ SameParameters layers layers.zeroGrad := by
  induction layers with
  | nil => exact .nil
  | cons layer layers ih =>
      refine .cons ?_ ih
      cases layer <;> simp [SameParameters, Layer.zeroGradients, DenseLayer.zeroGradients]

theorem real_zeroGrad (layers : Sequential α[ε]) : realStack layers.zeroGrad = (realStack layers).zeroGrad := by
  unfold realStack Sequential.zeroGrad
  rw [List.map_map, List.map_map]
  apply List.map_congr_left
  intro layer _
  cases layer with
  | dense layer =>
      simp [Layer.zeroGradients, realLayer, mapLayer, mapDense, DenseLayer.zeroGradients, mapTensor, fillZero]
  | _ => rfl

theorem pairing_zero_left {m n : Type*} [Fintype m] [Fintype n] (A : Matrix m n α) : pairing 0 A = 0 := by
  simp [pairing]

theorem along_zeroGradients {layer : Layer α[ε]} (shape : FromTo a b layer) :
    along layer.zeroGradients (realLayer layer.zeroGradients) = 0 := by
  cases layer with
  | dense layer =>
      have features := HasFeatures.zeroGradients shape
      have weights : matrixOf a b layer.zeroGradients.dWeights = 0 := matrixOf_fillZero shape.dWeights
      have bias : matrixOf 1 b layer.zeroGradients.dBias = 0 := matrixOf_fillZero shape.dBias
      have weights' : matrixOf a b (mapTensor fst layer.zeroGradients.dWeights) = 0 := by
        rw [matrixOf_map fst features.dWeights, weights]
        rfl
      have bias' : matrixOf 1 b (mapTensor fst layer.zeroGradients.dBias) = 0 := by
        rw [matrixOf_map fst features.dBias, bias]
        rfl
      rw [Layer.zeroGradients, realLayer, mapLayer, along_dense features, mapDense, weights', bias', pairing_zero_left,
        pairing_zero_left, add_zero]
  | _ => rfl

theorem alongStack_zeroGrad {layers : Sequential α[ε]} (stack : Stack batch a c layers) :
    alongStack layers.zeroGrad (realStack layers.zeroGrad) = 0 := by
  induction stack with
  | nil => rfl
  | cons shape _ _ ih =>
      unfold alongStack realStack Sequential.zeroGrad at ih ⊢
      rw [List.map_cons, List.map_cons, List.zipWith_cons_cons, List.sum_cons, along_zeroGradients shape, ih, add_zero]

variable [LinearOrder α]

/-- Where the layer has a derivative. `SigmoidLayer` takes the logistic function of its own output once more. -/
def RegularAt (coefficients : Coefficients α) (input : Tensor2D α) : Layer α → Prop
  | .dense _ => True
  | .relu _ | .leakyReLU _ => ∀ x ∈ input.data, x ≠ 0
  | .sigmoid _ => ∀ x ∈ input.data,
      coefficients.logistic (coefficients.logistic x) * (1 - coefficients.logistic (coefficients.logistic x)) =
        coefficients.logistic x * (1 - coefficients.logistic x)

def Regular (coefficients : Coefficients α) : Sequential α → Tensor2D α → Prop
  | [], _ => True
  | layer :: layers, input => RegularAt coefficients input layer ∧
      ∀ output, (layer.forward coefficients input).map Prod.fst = some output → Regular coefficients layers output

/-! ## One layer -/

section Layers

variable {coefficients : Coefficients α} {layer : Layer α[ε]} {input : Tensor2D α[ε]} {gradient : Tensor2D α}

structure Differentiates (coefficients : Coefficients α) (batch a b : Nat) (layer : Layer α[ε]) (input : Tensor2D α[ε])
    (output : Tensor2D α[ε]) (forwarded : Layer α[ε]) : Prop where
  forward : layer.forward (duals coefficients) input = some (output, forwarded)
  rowMajor : IsRowMajor batch b output
  realForward : (realLayer layer).forward coefficients (real input) = some (real output, realLayer forwarded)
  backward : ∀ gradient, IsRowMajor batch b gradient → ∃ (dInput : Tensor2D α) (after : Layer α[ε]),
    (realLayer forwarded).backward coefficients gradient = some (dInput, realLayer after) ∧
      IsRowMajor batch a dInput ∧ FromTo a b after ∧ SameParameters layer after ∧
      pairing (matrixOf batch b gradient) (change (matrixOf batch b output)) + along layer (realLayer layer) =
        pairing (matrixOf batch a dInput) (change (matrixOf batch a input)) + along after (realLayer after)

theorem differentiates_of_scale {output : Tensor2D α[ε]} {forwarded : Layer α[ε]} {output' : Tensor2D α}
    (scale : Matrix (Fin batch) (Fin a) α) (forward : layer.forward (duals coefficients) input = some (output, forwarded))
    (rowMajor : IsRowMajor batch a output) (rowMajor' : IsRowMajor batch a output')
    (base_eq : matrixOf batch a output' = base (matrixOf batch a output))
    (change_eq : change (matrixOf batch a output) = fun i j => scale i j * change (matrixOf batch a input) i j)
    (realForward : output' = real output →
      (realLayer layer).forward coefficients (real input) = some (real output, realLayer forwarded))
    (backward : ∀ gradient, IsRowMajor batch a gradient → ∃ dInput,
      (realLayer forwarded).backward coefficients gradient = some (dInput, realLayer forwarded) ∧
        IsRowMajor batch a dInput ∧ matrixOf batch a dInput = fun i j => matrixOf batch a gradient i j * scale i j)
    (shape : FromTo a a forwarded) (same : SameParameters layer forwarded)
    (plain : along layer (realLayer layer) = 0 ∧ along forwarded (realLayer forwarded) = 0) :
    Differentiates coefficients batch a a layer input output forwarded := by
  refine ⟨forward, rowMajor, realForward (real_eq rowMajor rowMajor' base_eq), ?_⟩
  intro gradient gradientRowMajor
  obtain ⟨dInput, passed, dInputRowMajor, dInput_eq⟩ := backward gradient gradientRowMajor
  refine ⟨dInput, forwarded, passed, dInputRowMajor, shape, same, ?_⟩
  rw [change_eq, dInput_eq, pairing_scaled, plain.1, plain.2]

variable (rowMajor : IsRowMajor batch a input)

include rowMajor

theorem positive_iff (regular : ∀ x ∈ (real input).data, x ≠ 0) (i : Fin batch) (j : Fin a) :
    matrixOf batch a input i j > 0 ↔ (matrixOf batch a input i j).fst > 0 := by
  apply dual_pos_iff
  have member := matrixOf_mem (rowMajor.map fst) i j
  rw [matrixOf_map fst rowMajor] at member
  exact regular _ member

theorem relu_differentiates (inputCache : Tensor2D α[ε]) (regular : ∀ x ∈ (real input).data, x ≠ 0) :
    ∃ output forwarded, Differentiates coefficients batch a a (.relu inputCache) input output forwarded := by
  obtain ⟨output, made, outputRowMajor, output_eq⟩ := relu_spec rowMajor
  obtain ⟨output', made', outputRowMajor', output_eq'⟩ := relu_spec (rowMajor.map fst)
  have positive := positive_iff rowMajor regular
  have base_eq : matrixOf batch a output' = base (matrixOf batch a output) := by
    rw [output_eq, output_eq', matrixOf_map fst rowMajor]
    funext i j
    rw [base, Matrix.map_apply, Matrix.map_apply, Matrix.map_apply, Matrix.map_apply]
    by_cases above : (matrixOf batch a input i j).fst > 0
    · rw [if_pos above, if_pos ((positive i j).mpr above)]
    · rw [if_neg above, if_neg ((positive i j).not.mpr above), fst_zero]
  refine ⟨output, .relu output, differentiates_of_scale
    (fun i j => if matrixOf batch a output' i j > 0 then 1 else 0) ?_ outputRowMajor outputRowMajor' base_eq ?_ ?_ ?_
    rfl trivial ⟨rfl, rfl⟩⟩
  · simp [Layer.forward, made]
  · rw [output_eq, output_eq', matrixOf_map fst rowMajor]
    funext i j
    rw [change, Matrix.map_apply, Matrix.map_apply, Matrix.map_apply, Matrix.map_apply, change, Matrix.map_apply]
    by_cases above : (matrixOf batch a input i j).fst > 0
    · rw [if_pos above, if_pos ((positive i j).mpr above), if_pos above, one_mul]
    · rw [if_neg above, if_neg ((positive i j).not.mpr above), if_neg (lt_irrefl 0), zero_mul, snd_zero]
  · intro same
    rw [← same]
    simp [Layer.forward, realLayer, mapLayer, real, made', same]
  · intro gradient gradientRowMajor
    obtain ⟨dInput, passed, dInputRowMajor, dInput_eq⟩ := reluBackward_spec (outputRowMajor.map fst) gradientRowMajor
    refine ⟨dInput, ?_, dInputRowMajor, ?_⟩
    · simp [Layer.backward, realLayer, mapLayer, passed]
    · rw [dInput_eq, base_eq, matrixOf_map fst outputRowMajor]
      funext i j
      rw [base, mul_ite, mul_one, mul_zero]

theorem leakyReLU_differentiates (inputCache : Tensor2D α[ε]) (regular : ∀ x ∈ (real input).data, x ≠ 0) :
    ∃ output forwarded, Differentiates coefficients batch a a (.leakyReLU inputCache) input output forwarded := by
  obtain ⟨output, made, outputRowMajor, output_eq⟩ := leakyForward_spec (inl coefficients.leak) rowMajor
  obtain ⟨output', made', outputRowMajor', output_eq'⟩ := leakyForward_spec coefficients.leak (rowMajor.map fst)
  have positive := positive_iff rowMajor regular
  refine ⟨output, .leakyReLU input, differentiates_of_scale
    (fun i j => if (matrixOf batch a input i j).fst > 0 then 1 else coefficients.leak) ?_ outputRowMajor outputRowMajor'
    ?_ ?_ ?_ ?_ rfl trivial ⟨rfl, rfl⟩⟩
  · simp [Layer.forward, duals, made]
  · rw [output_eq, output_eq', matrixOf_map fst rowMajor]
    funext i j
    rw [base, Matrix.map_apply, Matrix.map_apply, Matrix.map_apply, Matrix.map_apply]
    by_cases above : (matrixOf batch a input i j).fst > 0
    · rw [if_pos above, if_pos ((positive i j).mpr above)]
    · rw [if_neg above, if_neg ((positive i j).not.mpr above), fst_mul, fst_inl]
  · rw [output_eq]
    funext i j
    rw [change, Matrix.map_apply, Matrix.map_apply, change, Matrix.map_apply]
    by_cases above : (matrixOf batch a input i j).fst > 0
    · rw [if_pos ((positive i j).mpr above), if_pos above, one_mul]
    · rw [if_neg ((positive i j).not.mpr above), if_neg above, DualNumber.snd_mul, fst_inl, snd_inl, zero_mul, add_zero]
  · intro same
    rw [← same]
    simp [Layer.forward, realLayer, mapLayer, real, made', same]
  · intro gradient gradientRowMajor
    obtain ⟨dInput, passed, dInputRowMajor, dInput_eq⟩ :=
      leakyBackward_spec coefficients.leak (rowMajor.map fst) gradientRowMajor
    refine ⟨dInput, ?_, dInputRowMajor, ?_⟩
    · simp [Layer.backward, realLayer, mapLayer, passed]
    · rw [dInput_eq, matrixOf_map fst rowMajor]
      rfl

theorem sigmoid_differentiates (outputCache : Tensor2D α[ε])
    (regular : RegularAt coefficients (real input) (.sigmoid (real outputCache))) :
    ∃ output forwarded, Differentiates coefficients batch a a (.sigmoid outputCache) input output forwarded := by
  obtain ⟨output, made, outputRowMajor, output_eq⟩ := sigmoid_spec (duals coefficients).logistic rowMajor
  obtain ⟨output', made', outputRowMajor', output_eq'⟩ := sigmoid_spec coefficients.logistic (rowMajor.map fst)
  have base_eq : matrixOf batch a output' = base (matrixOf batch a output) := by
    rw [output_eq, output_eq', matrixOf_map fst rowMajor]
    rfl
  have outputs : ∀ i j, matrixOf batch a output' i j = coefficients.logistic (matrixOf batch a input i j).fst := by
    intro i j
    rw [output_eq', matrixOf_map fst rowMajor]
    rfl
  refine ⟨output, .sigmoid output, differentiates_of_scale
    (fun i j => coefficients.logistic (matrixOf batch a input i j).fst *
      (1 - coefficients.logistic (matrixOf batch a input i j).fst))
    ?_ outputRowMajor outputRowMajor' base_eq ?_ ?_ ?_ rfl trivial ⟨rfl, rfl⟩⟩
  · simp [Layer.forward, made]
  · rw [output_eq]
    rfl
  · intro same
    rw [← same]
    simp [Layer.forward, realLayer, mapLayer, real, made', same]
  · intro gradient gradientRowMajor
    obtain ⟨dInput, passed, dInputRowMajor, dInput_eq⟩ :=
      sigmoidBackward_spec coefficients.logistic (outputRowMajor.map fst) gradientRowMajor
    refine ⟨dInput, ?_, dInputRowMajor, ?_⟩
    · simp [Layer.backward, realLayer, mapLayer, passed]
    · rw [dInput_eq, matrixOf_map fst outputRowMajor]
      funext i j
      have member := matrixOf_mem (rowMajor.map fst) i j
      rw [matrixOf_map fst rowMajor] at member
      have value := (congrFun (congrFun base_eq i) j).symm.trans (outputs i j)
      rw [base] at value
      rw [value, mul_assoc]
      exact congrArg _ (regular _ member)

theorem dense_differentiates {layer : DenseLayer α[ε]} (features : HasFeatures a b layer) (fits : batch * b ≤ maxSize) :
    ∃ output forwarded, Differentiates coefficients batch a b (.dense layer) input output forwarded := by
  obtain ⟨output, made, outputRowMajor, output_eq⟩ := forward_spec features rowMajor fits
  obtain ⟨output', made', outputRowMajor', output_eq'⟩ := forward_spec (features.map fst) (rowMajor.map fst) fits
  have same : output' = real output := by
    apply real_eq outputRowMajor outputRowMajor'
    rw [output_eq, output_eq', base_add, base_mul, base_mul, mapDense, matrixOf_map fst rowMajor,
      matrixOf_map fst features.weights, matrixOf_map fst features.bias]
    rfl
  refine ⟨output, .dense { layer with inputCache := input }, ?_, outputRowMajor, ?_, ?_⟩
  · simp [Layer.forward, made]
  · rw [← same]
    simp [Layer.forward, realLayer, mapLayer, mapDense, real] at made' ⊢
    simp [made']
  · intro gradient gradientRowMajor
    have forwarded : HasFeatures a b (mapDense fst { layer with inputCache := input }) :=
      HasFeatures.map fst ⟨features.weights, features.bias, features.dWeights, features.dBias⟩
    obtain ⟨dInput, dWeights, dBias, passed, dInputRowMajor, dWeightsRowMajor, dBiasRowMajor, dInput_eq, dWeights_eq,
      dBias_eq⟩ := backward_spec forwarded (rowMajor.map fst) gradientRowMajor
    let after : DenseLayer α[ε] :=
      { layer with inputCache := input, dWeights := mapTensor inl dWeights, dBias := mapTensor inl dBias }
    have afterFeatures : HasFeatures a b after :=
      ⟨features.weights, features.bias, dWeightsRowMajor.map inl, dBiasRowMajor.map inl⟩
    have reals : mapDense fst after = { mapDense fst { layer with inputCache := input } with dWeights, dBias } := by
      simp only [mapDense, after, real_inl]
    refine ⟨dInput, .dense after, ?_, dInputRowMajor, afterFeatures, ⟨rfl, rfl⟩, ?_⟩
    · simp [Layer.backward, realLayer, mapLayer, passed, reals]
    · simp only [realLayer, mapLayer, along_dense features, along_dense afterFeatures, reals, dInput_eq, dWeights_eq,
        dBias_eq, output_eq, change_affine, pairing_affine, add_pairing]
      simp only [mapDense, matrixOf_map fst rowMajor, matrixOf_map fst features.weights]
      have weights : after.weights = layer.weights := rfl
      have bias : after.bias = layer.bias := rfl
      rw [weights, bias, base, base]
      ring

theorem layer_differentiates (shape : FromTo a b layer) (fits : batch * b ≤ maxSize)
    (regular : RegularAt coefficients (real input) (realLayer layer)) :
    ∃ output forwarded, Differentiates coefficients batch a b layer input output forwarded := by
  cases layer with
  | dense layer => exact dense_differentiates rowMajor shape fits
  | relu inputCache =>
      obtain rfl : a = b := shape
      exact relu_differentiates rowMajor inputCache regular
  | leakyReLU inputCache =>
      obtain rfl : a = b := shape
      exact leakyReLU_differentiates rowMajor inputCache regular
  | sigmoid outputCache =>
      obtain rfl : a = b := shape
      exact sigmoid_differentiates rowMajor outputCache regular

end Layers

section Stacks

variable {coefficients : Coefficients α} {layers : Sequential α[ε]} {input : Tensor2D α[ε]}

structure StackDifferentiates (coefficients : Coefficients α) (size batch a c : Nat) (layers : Sequential α[ε])
    (input output : Tensor2D α[ε]) (forwarded : Sequential α[ε]) : Prop where
  forward : Sequential.forward (duals coefficients) layers input = some (output, forwarded)
  rowMajor : IsRowMajor size c output
  realForward : Sequential.forward coefficients (realStack layers) (real input) = some (real output, realStack forwarded)
  backward : ∀ gradient, IsRowMajor size c gradient → ∃ (dInput : Tensor2D α) (after : Sequential α[ε]),
    Sequential.backward coefficients (realStack forwarded) gradient = some (dInput, realStack after) ∧
      IsRowMajor size a dInput ∧ Stack batch a c after ∧ List.Forall₂ SameParameters layers after ∧
      pairing (matrixOf size c gradient) (change (matrixOf size c output)) + alongStack layers (realStack layers) =
        pairing (matrixOf size a dInput) (change (matrixOf size a input)) + alongStack after (realStack after)

theorem stack_differentiates {size : Nat} (small : size ≤ batch) (stack : Stack batch a c layers)
    (rowMajor : IsRowMajor size a input) (regular : Regular coefficients (realStack layers) (real input)) :
    ∃ output forwarded, StackDifferentiates coefficients size batch a c layers input output forwarded := by
  induction stack generalizing input with
  | nil a => exact ⟨input, [], rfl, rowMajor, rfl, fun gradient gradientRowMajor =>
      ⟨gradient, [], rfl, gradientRowMajor, .nil a, .nil, rfl⟩⟩
  | @cons a b c layer layers shape fits rest ih =>
      obtain ⟨here, later⟩ := regular
      obtain ⟨middle, forwarded, first⟩ :=
        layer_differentiates rowMajor shape (le_trans (Nat.mul_le_mul_right b small) fits) here
      obtain ⟨output, forwardeds, second⟩ := ih first.rowMajor (later _ (congrArg (Option.map Prod.fst) first.realForward))
      refine ⟨output, forwarded :: forwardeds, ?_, second.rowMajor, ?_, ?_⟩
      · simp [Sequential.forward, first.forward, second.forward]
      · have realRest := second.realForward
        unfold realStack at realRest ⊢
        simp [Sequential.forward, first.realForward, realRest]
      · intro gradient gradientRowMajor
        obtain ⟨dMiddle, afters, passed, dMiddleRowMajor, stack, same, slope⟩ :=
          second.backward gradient gradientRowMajor
        obtain ⟨dInput, after, passed', dInputRowMajor, shape', same', slope'⟩ := first.backward dMiddle dMiddleRowMajor
        refine ⟨dInput, after :: afters, ?_, dInputRowMajor, .cons shape' fits stack, .cons same' same, ?_⟩
        · unfold realStack at passed ⊢
          simp [Sequential.backward, passed, passed']
        · unfold alongStack realStack at slope ⊢
          simp only [List.map_cons, List.zipWith_cons_cons, List.sum_cons]
          linear_combination slope + slope'

end Stacks

/-! ## Runs over several batches -/

section Batches

variable {coefficients : Coefficients α} {layer other : Layer α} {layers others : Sequential α}

theorem layer_forward_same (same : SameParameters layer other) (input : Tensor2D α) :
    (layer.forward coefficients input).map Prod.fst = (other.forward coefficients input).map Prod.fst := by
  cases layer with
  | dense layer =>
      cases other with
      | dense other =>
          obtain ⟨weights, bias⟩ := same
          simp [Layer.forward, DenseLayer.forward, weights, bias, Option.map_bind, Option.bind_assoc]
      | _ => cases same
  | _ =>
      cases other with
      | dense other => cases same
      | _ => first | rfl | cases same

theorem forward_same (same : List.Forall₂ SameParameters layers others) (input : Tensor2D α) :
    (Sequential.forward coefficients layers input).map Prod.fst =
      (Sequential.forward coefficients others input).map Prod.fst := by
  induction same generalizing input with
  | nil => rfl
  | @cons layer other layers others here _ ih =>
      have first := @layer_forward_same _ _ _ coefficients _ _ here input
      cases ran : layer.forward coefficients input with
      | none =>
          have ran' : other.forward coefficients input = none := by simpa [ran] using first.symm
          simp [Sequential.forward, ran, ran']
      | some result =>
          obtain ⟨result', ran', outputs⟩ : ∃ result', other.forward coefficients input = some result' ∧
              result'.1 = result.1 := by simpa [ran] using first.symm
          simpa [Sequential.forward, ran, ran', outputs, Option.map_eq_bind, Option.bind_assoc, Function.comp_def] using ih result.1

theorem regular_same (same : List.Forall₂ SameParameters layers others) {input : Tensor2D α}
    (regular : Regular coefficients layers input) : Regular coefficients others input := by
  induction same generalizing input with
  | nil => trivial
  | @cons layer other layers others here _ ih =>
      obtain ⟨first, rest⟩ := regular
      refine ⟨?_, fun output ran => ih (rest output ((layer_forward_same here input).trans ran))⟩
      cases layer <;> cases other <;> first | exact first | cases here

/-- `forward` and `backward` for one batch after another, without `zero_grad` in between. -/
def passes (coefficients : Coefficients α) : Sequential α → List (Tensor2D α × Tensor2D α) →
    Option (List (Tensor2D α × Tensor2D α) × Sequential α)
  | layers, [] => some ([], layers)
  | layers, (input, gradient) :: batches => do
      let (output, layers) ← Sequential.forward coefficients layers input
      let (dInput, layers) ← Sequential.backward coefficients layers gradient
      let (results, layers) ← passes coefficients layers batches
      some ((output, dInput) :: results, layers)

def FitStack (batch a c : Nat) (batches : List (Tensor2D β × Tensor2D α)) : Prop :=
  ∀ given ∈ batches, ∃ size ≤ batch, IsRowMajor size a given.1 ∧ IsRowMajor size c given.2

theorem passes_differentiate {layers now : Sequential α[ε]} {batches : List (Tensor2D α[ε] × Tensor2D α)}
    (stack : Stack batch a c now) (same : List.Forall₂ SameParameters layers now) (fit : FitStack batch a c batches)
    (regular : ∀ given ∈ batches, Regular coefficients (realStack layers) (real given.1)) :
    ∃ outputs results after,
      batches.mapM (fun given => (Sequential.forward (duals coefficients) layers given.1).map Prod.fst) = some outputs ∧
      passes coefficients (realStack now) (batches.map fun given => (real given.1, given.2)) =
        some (results, realStack after) ∧
      Stack batch a c after ∧ List.Forall₂ SameParameters layers after ∧ results.map Prod.fst = outputs.map real ∧
      (List.zipWith (fun given output => slope given.2 output) batches outputs).sum + alongStack now (realStack now) =
        (List.zipWith (fun given result => slope result.2 given.1) batches results).sum +
          alongStack after (realStack after) := by
  induction batches generalizing now with
  | nil => exact ⟨[], [], now, rfl, rfl, stack, same, rfl, rfl⟩
  | cons given batches ih =>
      obtain ⟨size, small, inputRowMajor, gradientRowMajor⟩ := fit given List.mem_cons_self
      obtain ⟨output, forwarded, here⟩ := stack_differentiates small stack inputRowMajor
        (regular_same (same_map fst same) (regular given List.mem_cons_self))
      obtain ⟨dInput, after, passed, dInputRowMajor, stack', same', slope'⟩ := here.backward given.2 gradientRowMajor
      obtain ⟨outputs, results, last, ran, passed', stack'', same'', outputs_eq, slopes⟩ := ih stack' (same_trans same same')
        (fun given member => fit given (List.mem_cons_of_mem _ member))
        (fun given member => regular given (List.mem_cons_of_mem _ member))
      have first : (Sequential.forward (duals coefficients) layers given.1).map Prod.fst = some output := by
        rw [forward_same same, here.forward, Option.map_some]
      refine ⟨output :: outputs, (real output, dInput) :: results, last, ?_, ?_, stack'', same'', ?_, ?_⟩
      · rw [List.mapM_cons, first, ran]
        rfl
      · simp [passes, here.realForward, passed, passed']
      · rw [List.map_cons, List.map_cons, outputs_eq]
      · simp only [List.zipWith_cons_cons, List.sum_cons, slope_eq gradientRowMajor, slope_eq dInputRowMajor]
        linear_combination slopes + slope'

theorem backpropagation {layers : Sequential α[ε]} {batches : List (Tensor2D α[ε] × Tensor2D α)}
    (stack : Stack batch a c layers) (fit : FitStack batch a c batches)
    (regular : ∀ given ∈ batches, Regular coefficients (realStack layers) (real given.1)) :
    ∃ outputs results after,
      batches.mapM (fun given => (Sequential.forward (duals coefficients) layers given.1).map Prod.fst) = some outputs ∧
      passes coefficients (realStack layers).zeroGrad (batches.map fun given => (real given.1, given.2)) =
        some (results, after) ∧
      results.map Prod.fst = outputs.map real ∧
      (List.zipWith (fun given output => slope given.2 output) batches outputs).sum =
        (List.zipWith (fun given result => slope result.2 given.1) batches results).sum + alongStack layers after := by
  obtain ⟨outputs, results, after, ran, passed, -, same, outputs_eq, slopes⟩ :=
    passes_differentiate stack.zeroGrad (same_zeroGrad layers) fit regular
  refine ⟨outputs, results, realStack after, ran, ?_, outputs_eq, ?_⟩
  · rw [← real_zeroGrad, passed]
  · rw [alongStack_zeroGrad stack, add_zero] at slopes
    rw [slopes, alongStack_same same]

theorem backpropagation_of_rows :
    let zero : Tensor2D ℤ[ε] := { rows := 1, cols := 1, data := [0] }
    let dense : DenseLayer ℤ[ε] :=
      { weights := { rows := 1, cols := 1, data := [inl 3 + inr 1] }
        bias := { rows := 1, cols := 1, data := [inl 1 + inr 2] }
        inputCache := zero
        dWeights := zero
        dBias := zero }
    let layers : Sequential ℤ[ε] := [.dense dense, .relu zero, .leakyReLU zero]
    let batches : List (Tensor2D ℤ[ε] × Tensor2D ℤ) :=
      [({ rows := 1, cols := 1, data := [inl 2 + inr 5] }, { rows := 1, cols := 1, data := [7] }),
        ({ rows := 1, cols := 1, data := [inl 4] }, { rows := 1, cols := 1, data := [-1] })]
    let coefficients : Coefficients ℤ := { leak := 2, logistic := id }
    ∃ outputs results after,
      batches.mapM (fun given => (Sequential.forward (duals coefficients) layers given.1).map Prod.fst) = some outputs ∧
      passes coefficients (realStack layers).zeroGrad (batches.map fun given => (real given.1, given.2)) =
        some (results, after) ∧
      results.map Prod.fst = outputs.map real ∧
      (List.zipWith (fun given output => slope given.2 output) batches outputs).sum =
        (List.zipWith (fun given result => slope result.2 given.1) batches results).sum + alongStack layers after := by
  intro zero dense layers batches coefficients
  have small : ∀ {β : Type} (x : β), IsRowMajor 1 1 ({ rows := 1, cols := 1, data := [x] } : Tensor2D β) :=
    fun _ => ⟨rfl, rfl, rfl, rfl, by decide⟩
  have stack : Stack 1 1 1 layers :=
    .cons ⟨small _, small _, small _, small _⟩ (by decide) (.cons rfl (by decide) (.cons rfl (by decide) (.nil 1)))
  have fit : FitStack 1 1 1 batches := by
    intro given member
    simp only [batches, List.mem_cons, List.not_mem_nil, or_false] at member
    rcases member with rfl | rfl
    · exact ⟨1, le_rfl, small _, small _⟩
    · exact ⟨1, le_rfl, small _, small _⟩
  have regular : ∀ given ∈ batches, Regular coefficients (realStack layers) (real given.1) := by
    intro given member
    simp only [batches, List.mem_cons, List.not_mem_nil, or_false] at member
    rcases member with rfl | rfl
    · refine ⟨trivial, ?_⟩
      intro output ran
      obtain rfl : ({ rows := 1, cols := 1, data := [7] } : Tensor2D ℤ) = output := Option.some.inj ran
      refine ⟨by simp [realLayer, mapLayer, RegularAt], ?_⟩
      intro output ran
      obtain rfl : ({ rows := 1, cols := 1, data := [7] } : Tensor2D ℤ) = output := Option.some.inj ran
      exact ⟨by simp [realLayer, mapLayer, RegularAt], fun _ _ => trivial⟩
    · refine ⟨trivial, ?_⟩
      intro output ran
      obtain rfl : ({ rows := 1, cols := 1, data := [13] } : Tensor2D ℤ) = output := Option.some.inj ran
      refine ⟨by simp [realLayer, mapLayer, RegularAt], ?_⟩
      intro output ran
      obtain rfl : ({ rows := 1, cols := 1, data := [13] } : Tensor2D ℤ) = output := Option.some.inj ran
      exact ⟨by simp [realLayer, mapLayer, RegularAt], fun _ _ => trivial⟩
  exact backpropagation stack fit regular

end Batches

end KnowledgeAcquisition.Proof.MachineLearning
