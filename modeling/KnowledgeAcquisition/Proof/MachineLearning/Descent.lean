import KnowledgeAcquisition.Proof.MachineLearning.Backpropagation
import Mathlib.Algebra.Order.BigOperators.Group.Finset
import Mathlib.Algebra.Order.Ring.Int

/-!
# A step of gradient descent

The change of the parameters that `step` makes is taken for the change of a dual stack. Along it the outputs, seen through
the gradients that went into `backward`, change by the sum of the squares of the gradients of the parameters.
-/

namespace KnowledgeAcquisition.Proof.MachineLearning
open KnowledgeAcquisition.MachineLearning Library Tensor2D TrivSqZeroExt DualNumber

variable {α : Type*} [CommRing α] {rows cols batch a b c : Nat}

section Updates

variable {tensor gradient : Tensor2D α}

theorem descend_spec (learningRate : α) (rowMajor : IsRowMajor rows cols tensor)
    (gradientRowMajor : IsRowMajor rows cols gradient) :
    ∃ next, assignEach rows cols (DenseLayer.descend learningRate gradient) tensor = some next ∧
      IsRowMajor rows cols next ∧
      matrixOf rows cols next = matrixOf rows cols tensor - learningRate • matrixOf rows cols gradient := by
  apply assignEach_entries rowMajor
  intro now i j nowRowMajor unchanged
  rw [DenseLayer.descend, gradientRowMajor.atValue_eq i.isLt j.isLt, nowRowMajor.atValue_eq i.isLt j.isLt, unchanged]
  rfl

theorem updateParameters_spec (learningRate : α) {layer : DenseLayer α} (features : HasFeatures a b layer) :
    ∃ weights bias, layer.updateParameters learningRate = some { layer with weights, bias } ∧
      IsRowMajor a b weights ∧ IsRowMajor 1 b bias ∧
      matrixOf a b weights = matrixOf a b layer.weights - learningRate • matrixOf a b layer.dWeights ∧
      matrixOf 1 b bias = matrixOf 1 b layer.bias - learningRate • matrixOf 1 b layer.dBias := by
  obtain ⟨weights, stepped, weightsRowMajor, weights_eq⟩ :=
    descend_spec learningRate features.weights features.dWeights
  obtain ⟨bias, stepped', biasRowMajor, bias_eq⟩ := descend_spec learningRate features.bias features.dBias
  refine ⟨weights, bias, ?_, weightsRowMajor, biasRowMajor, weights_eq, bias_eq⟩
  rw [DenseLayer.updateParameters, features.weights.rows_eq, features.weights.cols_eq, features.bias.cols_eq]
  simp [stepped, stepped']

end Updates

def towardTensor (tensor other : Tensor2D α) : Tensor2D α[ε] :=
  { rows := tensor.rows
    cols := tensor.cols
    data := List.zipWith (fun x y => inl x + inr (y - x)) tensor.data other.data
    isTransposed := tensor.isTransposed }

def toward : Layer α → Layer α → Layer α[ε]
  | .dense layer, .dense other => .dense
      { weights := towardTensor layer.weights other.weights
        bias := towardTensor layer.bias other.bias
        inputCache := mapTensor inl layer.inputCache
        dWeights := mapTensor inl layer.dWeights
        dBias := mapTensor inl layer.dBias }
  | layer, _ => mapLayer inl layer

def towardStack (layers others : Sequential α) : Sequential α[ε] := List.zipWith toward layers others

/-- The sum of the squares of the gradients. -/
def squares : Layer α → α
  | .dense layer =>
      pairing (matrixOf layer.weights.rows layer.weights.cols layer.dWeights)
          (matrixOf layer.weights.rows layer.weights.cols layer.dWeights) +
        pairing (matrixOf 1 layer.bias.cols layer.dBias) (matrixOf 1 layer.bias.cols layer.dBias)
  | _ => 0

section Toward

variable {tensor other : Tensor2D α}

theorem toward_rowMajor (rowMajor : IsRowMajor rows cols tensor) (otherRowMajor : IsRowMajor rows cols other) :
    IsRowMajor rows cols (towardTensor tensor other) := by
  refine ⟨rowMajor.rows_eq, rowMajor.cols_eq, rowMajor.straight, ?_, rowMajor.fits⟩
  simp [towardTensor, rowMajor.length_eq, otherRowMajor.length_eq]

theorem matrixOf_toward (rowMajor : IsRowMajor rows cols tensor) (otherRowMajor : IsRowMajor rows cols other)
    (i : Fin rows) (j : Fin cols) : matrixOf rows cols (towardTensor tensor other) i j =
      inl (matrixOf rows cols tensor i j) + inr (matrixOf rows cols other i j - matrixOf rows cols tensor i j) := by
  have read := (toward_rowMajor rowMajor otherRowMajor).holds.element i j i.isLt j.isLt
  rw [towardTensor, List.getElem?_zipWith, rowMajor.holds.element i j i.isLt j.isLt,
    otherRowMajor.holds.element i j i.isLt j.isLt] at read
  exact (Option.some.inj read).symm

theorem change_toward (rowMajor : IsRowMajor rows cols tensor) (otherRowMajor : IsRowMajor rows cols other) :
    change (matrixOf rows cols (towardTensor tensor other)) = matrixOf rows cols other - matrixOf rows cols tensor := by
  funext i j
  rw [change, Matrix.map_apply, matrixOf_toward rowMajor otherRowMajor]
  simp

theorem real_toward (rowMajor : IsRowMajor rows cols tensor) (otherRowMajor : IsRowMajor rows cols other) :
    mapTensor fst (towardTensor tensor other) = tensor := by
  symm
  apply real_eq (toward_rowMajor rowMajor otherRowMajor) rowMajor
  funext i j
  rw [base, Matrix.map_apply, matrixOf_toward rowMajor otherRowMajor]
  simp

theorem pairing_smul (r : α) (A B : Matrix (Fin rows) (Fin cols) α) : pairing A (r • B) = r * pairing A B := by
  simp only [pairing, Matrix.smul_apply, smul_eq_mul, Finset.mul_sum]
  exact Finset.sum_congr rfl fun i _ => Finset.sum_congr rfl fun j _ => mul_left_comm _ _ _

theorem real_mapLayer (layer : Layer α) : realLayer (mapLayer inl layer) = layer := by
  cases layer with
  | dense layer => simp [realLayer, mapLayer, mapDense, real_inl]
  | _ => simp [realLayer, mapLayer, real_inl]

theorem squares_dense {layer : DenseLayer α} (features : HasFeatures a b layer) : squares (.dense layer) =
    pairing (matrixOf a b layer.dWeights) (matrixOf a b layer.dWeights) +
      pairing (matrixOf 1 b layer.dBias) (matrixOf 1 b layer.dBias) := by
  have resized : ∀ {r c r' c' : Nat} (tensor : Tensor2D α), r = r' → c = c' →
      pairing (matrixOf r c tensor) (matrixOf r c tensor) = pairing (matrixOf r' c' tensor) (matrixOf r' c' tensor) := by
    rintro r c r' c' tensor rfl rfl
    rfl
  rw [squares, resized _ features.weights.rows_eq features.weights.cols_eq, resized _ rfl features.bias.cols_eq]

theorem squares_step (learningRate : α) {layers stepped : Sequential α} (stack : Stack batch a c layers)
    (ran : step learningRate layers = some stepped) : stepped.map squares = layers.map squares := by
  unfold step at ran
  induction stack generalizing stepped with
  | nil =>
      cases ran
      rfl
  | @cons a b c layer layers shape _ _ ih =>
      rw [List.mapM_cons] at ran
      obtain ⟨next, updated, ran⟩ := Option.bind_eq_some_iff.mp ran
      obtain ⟨rest, others, ran⟩ := Option.bind_eq_some_iff.mp ran
      cases ran
      rw [List.map_cons, List.map_cons, ih others]
      cases layer with
      | dense layer =>
          obtain ⟨weights, bias, stepped, weightsRowMajor, biasRowMajor, _, _⟩ := updateParameters_spec learningRate shape
          rw [Layer.updateParameters, stepped] at updated
          cases updated
          have shape' : HasFeatures a b { layer with weights, bias } :=
            ⟨weightsRowMajor, biasRowMajor, shape.dWeights, shape.dBias⟩
          rw [squares_dense shape', squares_dense shape]
      | _ =>
          cases updated
          rfl

theorem layer_descends (learningRate : α) {layer trained : Layer α} (shape : FromTo a b layer)
    (shape' : FromTo a b trained) (same : SameParameters layer trained) :
    ∃ next, trained.updateParameters learningRate = some next ∧ FromTo a b (toward layer next) ∧
      realLayer (toward layer next) = layer ∧ along (toward layer next) trained = -learningRate * squares trained := by
  cases layer with
  | dense layer =>
      cases trained with
      | dense trained =>
          obtain ⟨weights, bias, stepped, weightsRowMajor, biasRowMajor, weights_eq, bias_eq⟩ :=
            updateParameters_spec learningRate shape'
          have shape'' : FromTo a b (toward (.dense layer) (.dense { trained with weights, bias })) :=
            ⟨toward_rowMajor shape.weights weightsRowMajor, toward_rowMajor shape.bias biasRowMajor,
              shape.dWeights.map inl, shape.dBias.map inl⟩
          refine ⟨.dense { trained with weights, bias }, ?_, shape'', ?_, ?_⟩
          · rw [Layer.updateParameters, stepped, Option.map_some]
          · simp [toward, realLayer, mapLayer, mapDense, real_inl, real_toward shape.weights weightsRowMajor,
              real_toward shape.bias biasRowMajor]
          · rw [toward, along_dense shape'', squares_dense shape', change_toward shape.weights weightsRowMajor,
              change_toward shape.bias biasRowMajor, weights_eq, bias_eq, ← same.1, ← same.2, sub_sub_cancel_left,
              sub_sub_cancel_left, ← neg_smul, ← neg_smul, pairing_smul, pairing_smul, mul_add]
      | _ => cases same
  | _ =>
      cases trained with
      | dense trained => cases same
      | _ => exact ⟨_, rfl, shape, by simp [toward, real_mapLayer], by simp [toward, mapLayer, along, squares]⟩

omit [CommRing α] in
theorem FromTo.unique [Zero α] {layer trained : Layer α} {b' : Nat} (shape : FromTo a b layer) (shape' : FromTo a b' trained)
    (same : SameParameters layer trained) : b = b' := by
  cases layer with
  | dense layer =>
      cases trained with
      | dense trained => exact shape.weights.cols_eq.symm.trans ((congrArg cols same.1).trans shape'.weights.cols_eq)
      | _ => cases same
  | _ =>
      cases trained with
      | dense trained => cases same
      | _ => exact shape.symm.trans shape'

theorem stack_descends (learningRate : α) {layers trained : Sequential α} (stack : Stack batch a c layers)
    (stack' : Stack batch a c trained) (same : List.Forall₂ SameParameters layers trained) :
    ∃ stepped, step learningRate trained = some stepped ∧ Stack batch a c (towardStack layers stepped) ∧
      realStack (towardStack layers stepped) = layers ∧
      alongStack (towardStack layers stepped) trained = -learningRate * (trained.map squares).sum := by
  induction stack generalizing trained with
  | nil a =>
      cases same with
      | nil => exact ⟨[], rfl, .nil a, rfl, by simp [towardStack, alongStack]⟩
  | @cons a b c layer layers shape fits _ ih =>
      cases same with
      | @cons _ other _ others here rest =>
          cases stack' with
          | @cons _ b' _ _ _ shape' _ stack' =>
              obtain rfl := shape.unique shape' here
              obtain ⟨next, updated, nextShape, next_real, next_along⟩ :=
                layer_descends learningRate shape shape' here
              obtain ⟨stepped, ran, steppedStack, stepped_real, stepped_along⟩ := ih stack' rest
              refine ⟨next :: stepped, ?_, .cons nextShape fits steppedStack, ?_, ?_⟩
              · unfold step at ran ⊢
                rw [List.mapM_cons, updated, ran]
                rfl
              · unfold realStack towardStack at stepped_real ⊢
                rw [List.zipWith_cons_cons, List.map_cons, next_real, stepped_real]
              · unfold alongStack towardStack at stepped_along ⊢
                rw [List.zipWith_cons_cons, List.zipWith_cons_cons, List.sum_cons, next_along, stepped_along, List.map_cons,
                  List.sum_cons, mul_add]

end Toward

/-! ## Descent -/

def unchanged (tensor : Tensor2D α) : Tensor2D α[ε] := mapTensor inl tensor

theorem slope_unchanged (gradient tensor : Tensor2D α) : slope gradient (unchanged tensor) = 0 := by
  have none : change (matrixOf gradient.rows gradient.cols (unchanged tensor)) = 0 := by
    funext i j
    rw [change, Matrix.map_apply, matrixOf, element, call, unchanged, mapTensor, List.getElem?_map]
    generalize tensor.data[(_ : Nat)]? = read
    cases read with
    | none => rfl
    | some x => rfl
  rw [slope, none]
  simp [pairing]

theorem slopes_unchanged (batches results : List (Tensor2D α × Tensor2D α)) :
    (List.zipWith (fun given result => slope result.2 (unchanged given.1)) batches results).sum = 0 := by
  induction batches generalizing results with
  | nil => rfl
  | cons given batches ih =>
      cases results with
      | nil => rfl
      | cons result results => rw [List.zipWith_cons_cons, List.sum_cons, slope_unchanged, ih, add_zero]

theorem real_unchanged (tensor : Tensor2D α) : real (unchanged tensor) = tensor := real_inl tensor

omit [CommRing α] in
theorem Stack.map [Zero α] {β : Type*} [Zero β] (f : α → β) {layers : Sequential α} (stack : Stack batch a c layers) :
    Stack batch a c (layers.map (mapLayer f)) := by
  induction stack with
  | nil a => exact .nil a
  | @cons a b c layer layers shape fits _ ih =>
      refine .cons ?_ fits ih
      cases layer with
      | dense layer => exact HasFeatures.map f shape
      | _ => exact shape

theorem realStack_map (layers : Sequential α) : realStack (layers.map (mapLayer inl)) = layers := by
  simp [realStack, Function.comp_def, real_mapLayer]

variable [LinearOrder α] {coefficients : Coefficients α} {layers : Sequential α}

theorem squares_nonneg [IsStrictOrderedRing α] (layer : Layer α) : 0 ≤ squares layer := by
  have each : ∀ {r c : Nat} (A : Matrix (Fin r) (Fin c) α), 0 ≤ pairing A A := fun A =>
    Finset.sum_nonneg fun i _ => Finset.sum_nonneg fun j _ => mul_self_nonneg (A i j)
  cases layer with
  | dense layer => exact add_nonneg (each _) (each _)
  | _ => exact le_rfl

theorem squares_sum_nonneg [IsStrictOrderedRing α] (layers : Sequential α) : 0 ≤ (layers.map squares).sum := by
  apply List.sum_nonneg
  intro square member
  obtain ⟨layer, _, rfl⟩ := List.mem_map.mp member
  exact squares_nonneg layer

theorem step_moves (learningRate : α) {batches : List (Tensor2D α × Tensor2D α)}
    (stack : Stack batch a c layers) (fit : FitStack batch a c batches)
    (regular : ∀ given ∈ batches, Regular coefficients layers given.1) :
    ∃ results trained stepped moved,
      passes coefficients layers.zeroGrad batches = some (results, trained) ∧
      step learningRate trained = some stepped ∧
      batches.mapM (fun given =>
        (Sequential.forward (duals coefficients) (towardStack layers stepped) (unchanged given.1)).map Prod.fst) =
          some moved ∧
      moved.map real = results.map Prod.fst ∧
      (List.zipWith (fun given output => slope given.2 output) batches moved).sum =
        -learningRate * (trained.map squares).sum := by
  let given' : List (Tensor2D α[ε] × Tensor2D α) := batches.map fun given => (unchanged given.1, given.2)
  have reals : given'.map (fun given => (real given.1, given.2)) = batches := by
    simp [given', Function.comp_def, real_unchanged]
  have fit' : FitStack batch a c given' := by
    intro given member
    obtain ⟨source, found, rfl⟩ := List.mem_map.mp member
    obtain ⟨size, small, inputRowMajor, gradientRowMajor⟩ := fit source found
    exact ⟨size, small, inputRowMajor.map inl, gradientRowMajor⟩
  have regular' : ∀ {dual : Sequential α[ε]}, realStack dual = layers →
      ∀ given ∈ given', Regular coefficients (realStack dual) (real given.1) := by
    rintro dual same given member
    obtain ⟨source, found, rfl⟩ := List.mem_map.mp member
    rw [same, real_unchanged]
    exact regular source found
  -- The run without changes gives the gradients, and these the step.
  have still := realStack_map layers
  obtain ⟨_, results, after, _, passed, stack', same, _, _⟩ :=
    passes_differentiate (stack.map inl).zeroGrad (same_zeroGrad _) fit' (regular' still)
  rw [reals, real_zeroGrad, still] at passed
  have same' : List.Forall₂ SameParameters layers (realStack after) := by
    have mapped : List.Forall₂ SameParameters (realStack (layers.map (mapLayer inl))) (realStack after) :=
      same_map fst same
    rwa [still] at mapped
  have trained : Stack batch a c (realStack after) := stack'.map fst
  obtain ⟨stepped, ran, steppedStack, stepped_real, stepped_along⟩ :=
    stack_descends learningRate stack trained same'
  -- The run along the step is the same one.
  obtain ⟨moved, results', after', moving, passed', _, sameMoved, outputs_eq, slopes⟩ :=
    passes_differentiate steppedStack.zeroGrad (same_zeroGrad _) fit' (regular' stepped_real)
  rw [reals, real_zeroGrad, stepped_real, passed] at passed'
  obtain ⟨rfl, afters⟩ := Prod.mk.inj (Option.some.inj passed')
  refine ⟨results, realStack after, stepped, moved, passed, ran, ?_, outputs_eq.symm, ?_⟩
  · rw [← moving, List.mapM_map]
    rfl
  · have zero := slopes_unchanged batches results
    rw [alongStack_zeroGrad steppedStack, add_zero, List.zipWith_map_left, List.zipWith_map_left, zero, zero_add,
      ← alongStack_same sameMoved, ← afters, stepped_along] at slopes
    exact slopes

theorem step_descends [IsStrictOrderedRing α] (learningRate : α) {batches : List (Tensor2D α × Tensor2D α)}
    (stack : Stack batch a c layers) (fit : FitStack batch a c batches)
    (regular : ∀ given ∈ batches, Regular coefficients layers given.1) :
    ∃ results trained stepped moved,
      passes coefficients layers.zeroGrad batches = some (results, trained) ∧
      step learningRate trained = some stepped ∧
      batches.mapM (fun given =>
        (Sequential.forward (duals coefficients) (towardStack layers stepped) (unchanged given.1)).map Prod.fst) =
          some moved ∧
      moved.map real = results.map Prod.fst ∧
      (List.zipWith (fun given output => slope given.2 output) batches moved).sum =
        -learningRate * (trained.map squares).sum ∧ 0 ≤ (trained.map squares).sum := by
  obtain ⟨results, trained, stepped, moved, passed, ran, moving, outputs_eq, slopes⟩ := step_moves learningRate stack fit regular
  exact ⟨results, trained, stepped, moved, passed, ran, moving, outputs_eq, slopes, squares_sum_nonneg trained⟩

theorem step_descends_dense :
    let zero : Tensor2D ℤ := { rows := 1, cols := 1, data := [0] }
    let layers : Sequential ℤ := [.dense
      { weights := { rows := 1, cols := 1, data := [3] }, bias := zero, inputCache := zero, dWeights := zero, dBias := zero }]
    let batches : List (Tensor2D ℤ × Tensor2D ℤ) :=
      [({ rows := 1, cols := 1, data := [2] }, { rows := 1, cols := 1, data := [5] })]
    let coefficients : Coefficients ℤ := { leak := 0, logistic := id }
    ∃ results trained stepped moved,
      passes coefficients layers.zeroGrad batches = some (results, trained) ∧
      step 4 trained = some stepped ∧
      batches.mapM (fun given =>
        (Sequential.forward (duals coefficients) (towardStack layers stepped) (unchanged given.1)).map Prod.fst) =
          some moved ∧
      moved.map real = results.map Prod.fst ∧
      (List.zipWith (fun given output => slope given.2 output) batches moved).sum = -4 * (trained.map squares).sum ∧
        0 ≤ (trained.map squares).sum := by
  intro zero layers batches coefficients
  have small : ∀ x : ℤ, IsRowMajor 1 1 { rows := 1, cols := 1, data := [x] } :=
    fun _ => ⟨rfl, rfl, rfl, rfl, by decide⟩
  have stack : Stack 1 1 1 layers := .cons ⟨small _, small _, small _, small _⟩ (by decide) (.nil 1)
  have fit : FitStack 1 1 1 batches := by
    intro given member
    obtain rfl := List.mem_singleton.mp member
    exact ⟨1, le_rfl, small _, small _⟩
  exact step_descends 4 stack fit fun _ _ => ⟨trivial, fun _ _ => trivial⟩

end KnowledgeAcquisition.Proof.MachineLearning
