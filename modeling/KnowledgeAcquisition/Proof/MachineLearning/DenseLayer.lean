import KnowledgeAcquisition.Library.Pairing
import KnowledgeAcquisition.MachineLearning.DenseLayer
import KnowledgeAcquisition.Proof.MachineLearning.Matmul

/-!
# The adjoint of a dense layer

A tensor is read as a matrix, the loops and the products of the layer are the operations on matrices, and what
`backward` returns and adds up is the adjoint of what `forward` computes.
-/

namespace KnowledgeAcquisition.Proof.MachineLearning
open KnowledgeAcquisition.MachineLearning Library Tensor2D DenseLayer Matrix

variable {α : Type*} [CommRing α] {rows cols inner : Nat} {tensor : Tensor2D α}

structure IsRowMajor (rows cols : Nat) (tensor : Tensor2D α) : Prop where
  rows_eq : tensor.rows = rows
  cols_eq : tensor.cols = cols
  straight : tensor.isTransposed = false
  length_eq : tensor.data.length = rows * cols
  fits : rows * cols ≤ maxSize

def matrixOf (rows cols : Nat) (tensor : Tensor2D α) : Matrix (Fin rows) (Fin cols) α :=
  fun i j => element tensor i j

omit [CommRing α] in
theorem IsRowMajor.fromRowMajor (rowMajor : IsRowMajor rows cols tensor) : FromRowMajor tensor := by
  obtain ⟨r, c, data, transposed⟩ := tensor
  obtain ⟨rfl, rfl, rfl, length, fits⟩ := rowMajor
  exact .rowMajor r c data length (length ▸ fits)

theorem IsRowMajor.holds (rowMajor : IsRowMajor rows cols tensor) : Holds rows cols tensor.data (element tensor) := by
  refine ⟨rowMajor.length_eq, ?_⟩
  intro i j row col
  have source := rowMajor.fromRowMajor
  have read := source.call_eq (rowMajor.rows_eq ▸ row) (rowMajor.cols_eq ▸ col)
  rwa [call, source.index_eq (rowMajor.rows_eq ▸ row) (rowMajor.cols_eq ▸ col), flat, rowMajor.straight,
    rowMajor.cols_eq, if_neg Bool.false_ne_true] at read

theorem IsRowMajor.element_eq {f : Nat → Nat → α} (rowMajor : IsRowMajor rows cols tensor)
    (holds : Holds rows cols tensor.data f) {i j : Nat} (row : i < rows) (col : j < cols) : element tensor i j = f i j :=
  Option.some.inj ((rowMajor.holds.element i j row col).symm.trans (holds.element i j row col))

omit [CommRing α] in
theorem IsRowMajor.replace {data : List α} (rowMajor : IsRowMajor rows cols tensor) (length : data.length = rows * cols) :
    IsRowMajor rows cols { tensor with data } :=
  ⟨rowMajor.rows_eq, rowMajor.cols_eq, rowMajor.straight, length, rowMajor.fits⟩

structure Represents (tensor : Tensor2D α) (A : Matrix (Fin rows) (Fin cols) α) : Prop where
  source : FromRowMajor tensor
  rows_eq : tensor.rows = rows
  cols_eq : tensor.cols = cols
  element_eq : ∀ (i : Fin rows) (j : Fin cols), element tensor i j = A i j

theorem IsRowMajor.represents (rowMajor : IsRowMajor rows cols tensor) :
    Represents tensor (matrixOf rows cols tensor) :=
  ⟨rowMajor.fromRowMajor, rowMajor.rows_eq, rowMajor.cols_eq, fun _ _ => rfl⟩

theorem element_transpose (tensor : Tensor2D α) (i j : Nat) : element tensor.transpose i j = element tensor j i := by
  unfold element call index Tensor2D.transpose
  cases tensor.isTransposed with
  | true => rfl
  | false => rfl

theorem Represents.transpose {A : Matrix (Fin rows) (Fin cols) α} (represents : Represents tensor A) :
    Represents tensor.transpose Aᵀ := by
  refine ⟨.transpose represents.source, represents.cols_eq, represents.rows_eq, ?_⟩
  intro i j
  rw [element_transpose, represents.element_eq, transpose_apply]

theorem dot_eq_sum (a b : Nat → Nat → α) (i j n : Nat) : dot a b i j n = ∑ k : Fin n, a i k * b k j := by
  rw [Fin.sum_univ_eq_sum_range fun k => a i k * b k j]
  induction n with
  | zero => rfl
  | succ n ih => rw [dot_succ, ih, Finset.sum_range_succ]

theorem matmul_represents {this other : Tensor2D α} {A : Matrix (Fin rows) (Fin inner) α}
    {B : Matrix (Fin inner) (Fin cols) α} (left : Represents this A) (right : Represents other B)
    (fits : rows * cols ≤ maxSize) :
    ∃ result, matmul this other = some result ∧ IsRowMajor rows cols result ∧ matrixOf rows cols result = A * B := by
  have same : this.cols = other.rows := left.cols_eq.trans right.rows_eq.symm
  have fits' : this.rows * other.cols ≤ maxSize := left.rows_eq ▸ right.cols_eq ▸ fits
  obtain ⟨data, multiplied, holds⟩ := products_spec left.source right.source same fits'
  have size : sizeT (this.rows * other.cols) ≤ maxSize := Nat.le_trans (Nat.le_of_eq (sizeT_eq fits')) fits'
  rw [left.rows_eq, right.cols_eq, left.cols_eq] at holds
  have rowMajor : IsRowMajor rows cols { (blank this.rows other.cols : Tensor2D α) with data } :=
    ⟨left.rows_eq, right.cols_eq, rfl, holds.length_eq, fits⟩
  refine ⟨_, matmul_eq_some_iff.mpr ⟨same, size, data, multiplied, rfl⟩, rowMajor, ?_⟩
  funext i j
  rw [matrixOf, rowMajor.element_eq holds i.isLt j.isLt, dot_eq_sum, mul_apply]
  apply Finset.sum_congr rfl
  intro k _
  rw [left.element_eq, right.element_eq]

omit [CommRing α] in
theorem IsRowMajor.atIndex_eq (rowMajor : IsRowMajor rows cols tensor) {i j : Nat} (row : i < rows) (col : j < cols) :
    tensor.atIndex i j = some (i * cols + j) := by
  have inside : ¬ (i ≥ rows ∨ j ≥ cols) := by omega
  have small : sizeT (i * cols + j) = i * cols + j :=
    sizeT_eq (Nat.le_trans (Nat.le_of_lt (flat_lt row col)) rowMajor.fits)
  rw [atIndex, rowMajor.straight, if_neg Bool.false_ne_true, rowMajor.rows_eq, rowMajor.cols_eq, if_neg inside, small]

theorem IsRowMajor.atValue_eq (rowMajor : IsRowMajor rows cols tensor) {i j : Nat} (row : i < rows) (col : j < cols) :
    tensor.atValue i j = some (element tensor i j) := by
  rw [atValue, rowMajor.atIndex_eq row col]
  exact rowMajor.holds.element i j row col

theorem IsRowMajor.atAdd_spec {f : Nat → Nat → α} (rowMajor : IsRowMajor rows cols tensor)
    (holds : Holds rows cols tensor.data f) {i j : Nat} (row : i < rows) (col : j < cols) (value : α) :
    ∃ next, tensor.atAdd i j value = some next ∧ IsRowMajor rows cols next ∧
      Holds rows cols next.data fun i' j' => if i' = i ∧ j' = j then f i j + value else f i' j' := by
  obtain ⟨data, stored, holds'⟩ := holds.store row col (f i j + value)
  refine ⟨{ tensor with data }, ?_, rowMajor.replace holds'.length_eq, holds'⟩
  rw [atAdd, rowMajor.atIndex_eq row col]
  simp only [Option.bind_eq_bind, Option.bind_some, holds.element i j row col, stored]

theorem addRow_spec {f : Nat → Nat → α} {value : Nat → Option α} {v : Nat → α} {target : Nat}
    (rowMajor : IsRowMajor rows cols tensor) (holds : Holds rows cols tensor.data f) (row : target < rows)
    (values : ∀ j, j < cols → value j = some (v j)) :
    ∃ next, (forEach cols tensor fun tensor j => do
        let added ← value j
        tensor.atAdd target j added) = some next ∧ IsRowMajor rows cols next ∧
      Holds rows cols next.data fun i' j' => if i' = target then f i' j' + v j' else f i' j' := by
  refine forEach_total (I := fun j (now : Tensor2D α) => IsRowMajor rows cols now ∧
    Holds rows cols now.data fun i' j' => if i' = target ∧ j' < j then f i' j' + v j' else f i' j') ?_ ?_ ?_
  · exact ⟨rowMajor, holds.congr fun i' j' _ _ => (if_neg (by omega)).symm⟩
  · rintro j now col ⟨rowMajor', holds'⟩
    obtain ⟨next, added, rowMajor'', holds''⟩ := rowMajor'.atAdd_spec holds' row col (v j)
    refine ⟨next, ?_, rowMajor'', holds''.congr ?_⟩
    · rw [values j col]
      exact added
    · intro i' j' _ _
      by_cases written : i' = target ∧ j' = j
      · obtain ⟨rfl, rfl⟩ := written
        simp
      · have same : (i' = target ∧ j' < j + 1) = (i' = target ∧ j' < j) := propext (by omega)
        simp only [written, if_false, same]
  · rintro last ⟨rowMajor', holds'⟩
    refine ⟨rowMajor', holds'.congr ?_⟩
    intro i' j' _ col
    simp only [col, and_true]

theorem addEach_spec {count : Nat} {row : Nat → Nat} {value : Nat → Nat → Option α} {v : Nat → Nat → α}
    (rowMajor : IsRowMajor rows cols tensor) (targets : ∀ i, i < count → row i < rows)
    (values : ∀ i j, i < count → j < cols → value i j = some (v i j)) :
    ∃ next, addEach count cols row value tensor = some next ∧ IsRowMajor rows cols next ∧
      ∀ i' j', i' < rows → j' < cols →
        element next i' j' = element tensor i' j' + ∑ i ∈ Finset.range count, if row i = i' then v i j' else 0 := by
  refine forEach_total (I := fun i (now : Tensor2D α) => IsRowMajor rows cols now ∧
    Holds rows cols now.data fun i' j' =>
      element tensor i' j' + ∑ i ∈ Finset.range i, if row i = i' then v i j' else 0) ?_ ?_ ?_
  · refine ⟨rowMajor, rowMajor.holds.congr ?_⟩
    intro i' j' _ _
    rw [Finset.range_zero, Finset.sum_empty, add_zero]
  · rintro i now inside ⟨rowMajor', holds'⟩
    obtain ⟨next, added, rowMajor'', holds''⟩ :=
      addRow_spec rowMajor' holds' (targets i inside) fun j col => values i j inside col
    refine ⟨next, added, rowMajor'', holds''.congr ?_⟩
    intro i' j' _ _
    rw [Finset.sum_range_succ, ← add_assoc]
    by_cases here : i' = row i
    · rw [if_pos here, if_pos here.symm]
    · rw [if_neg here, if_neg (Ne.symm here), add_zero]
  · rintro last ⟨rowMajor', holds'⟩
    exact ⟨rowMajor', fun i' j' row col => rowMajor'.element_eq holds' row col⟩

theorem addEach_matrix {value : Nat → Nat → Option α} {V : Matrix (Fin rows) (Fin cols) α}
    (rowMajor : IsRowMajor rows cols tensor) (values : ∀ (i : Fin rows) (j : Fin cols), value i j = some (V i j)) :
    ∃ next, addEach rows cols (fun i => i) value tensor = some next ∧ IsRowMajor rows cols next ∧
      matrixOf rows cols next = matrixOf rows cols tensor + V := by
  have reads : ∀ i j, i < rows → j < cols → value i j = some ((value i j).getD 0) := by
    intro i j row col
    rw [values ⟨i, row⟩ ⟨j, col⟩, Option.getD_some]
  obtain ⟨next, added, rowMajor', elements⟩ := addEach_spec rowMajor (fun _ inside => inside) reads
  refine ⟨next, added, rowMajor', ?_⟩
  funext i j
  rw [Matrix.add_apply, matrixOf, matrixOf, elements i j i.isLt j.isLt, Finset.sum_ite_eq', if_pos (Finset.mem_range.mpr i.isLt),
    values i j, Option.getD_some]

def ones (α : Type*) [One α] (rows : Nat) : Matrix (Fin rows) (Fin 1) α := fun _ _ => 1

theorem addEach_columns {count : Nat} {summed : Tensor2D α} (rowMajor : IsRowMajor 1 cols tensor)
    (rowMajor' : IsRowMajor count cols summed) :
    ∃ next, addEach count cols (fun _ => 0) (fun i j => summed.atValue i j) tensor = some next ∧
      IsRowMajor 1 cols next ∧
        matrixOf 1 cols next = matrixOf 1 cols tensor + (ones α count)ᵀ * matrixOf count cols summed := by
  have targets : ∀ i, i < count → (fun _ : Nat => 0) i < 1 := fun _ _ => Nat.one_pos
  obtain ⟨next, added, rowMajor'', elements⟩ :=
    addEach_spec rowMajor targets fun i j row col => rowMajor'.atValue_eq row col
  refine ⟨next, added, rowMajor'', ?_⟩
  funext i j
  have first : 0 = (i : Nat) := by omega
  rw [Matrix.add_apply, matrixOf, matrixOf, elements i j i.isLt j.isLt, mul_apply]
  simp only [first, if_true, transpose_apply, ones, one_mul, matrixOf]
  rw [Fin.sum_univ_eq_sum_range fun i => element summed i j]

/-! ## Layers -/

variable {layer : DenseLayer α} {inFeatures outFeatures batch : Nat} {input gradient : Tensor2D α}

structure HasFeatures (inFeatures outFeatures : Nat) (layer : DenseLayer α) : Prop where
  weights : IsRowMajor inFeatures outFeatures layer.weights
  bias : IsRowMajor 1 outFeatures layer.bias
  dWeights : IsRowMajor inFeatures outFeatures layer.dWeights
  dBias : IsRowMajor 1 outFeatures layer.dBias

omit [CommRing α] in
theorem IsRowMajor.fillZero [Zero α] (rowMajor : IsRowMajor rows cols tensor) :
    IsRowMajor rows cols tensor.fillZero :=
  rowMajor.replace (List.length_replicate.trans rowMajor.length_eq)

theorem matrixOf_fillZero (rowMajor : IsRowMajor rows cols tensor) : matrixOf rows cols tensor.fillZero = 0 := by
  have zeros : Holds rows cols tensor.fillZero.data fun _ _ => 0 := by
    rw [Tensor2D.fillZero, rowMajor.length_eq]
    exact holds_replicate rows cols 0
  funext i j
  exact rowMajor.fillZero.element_eq zeros i.isLt j.isLt

omit [CommRing α] in
theorem HasFeatures.zeroGradients [Zero α] (features : HasFeatures inFeatures outFeatures layer) :
    HasFeatures inFeatures outFeatures layer.zeroGradients :=
  ⟨features.weights, features.bias, features.dWeights.fillZero, features.dBias.fillZero⟩

theorem forward_spec (features : HasFeatures inFeatures outFeatures layer) (rowMajor : IsRowMajor batch inFeatures input)
    (fits : batch * outFeatures ≤ maxSize) :
    ∃ output, layer.forward input = some (output, { layer with inputCache := input }) ∧
      IsRowMajor batch outFeatures output ∧
        matrixOf batch outFeatures output = matrixOf batch inFeatures input * matrixOf inFeatures outFeatures layer.weights +
          ones α batch * matrixOf 1 outFeatures layer.bias := by
  obtain ⟨product, multiplied, rowMajor', product_eq⟩ :=
    matmul_represents rowMajor.represents features.weights.represents fits
  let value : Nat → Nat → Option α := fun _ j => layer.bias.atValue 0 j
  have values : ∀ (i : Fin batch) (j : Fin outFeatures), value i j =
      some ((ones α batch * matrixOf 1 outFeatures layer.bias : Matrix (Fin batch) (Fin outFeatures) α) i j) := by
    intro i j
    rw [mul_apply, Fin.sum_univ_one, ones, one_mul]
    exact features.bias.atValue_eq Nat.one_pos j.isLt
  obtain ⟨output, added, rowMajor'', output_eq⟩ := addEach_matrix rowMajor' values
  refine ⟨output, ?_, rowMajor'', output_eq.trans (by rw [product_eq])⟩
  rw [DenseLayer.forward]
  simp only [multiplied, Option.bind_eq_bind, Option.bind_some, rowMajor'.rows_eq, rowMajor'.cols_eq]
  exact congrArg (Option.bind · _) added

theorem backward_spec (features : HasFeatures inFeatures outFeatures layer)
    (cached : IsRowMajor batch inFeatures layer.inputCache) (rowMajor : IsRowMajor batch outFeatures gradient) :
    ∃ dInput dWeights dBias, layer.backward gradient = some (dInput, { layer with dWeights, dBias }) ∧
      IsRowMajor batch inFeatures dInput ∧ IsRowMajor inFeatures outFeatures dWeights ∧ IsRowMajor 1 outFeatures dBias ∧
      matrixOf batch inFeatures dInput =
        matrixOf batch outFeatures gradient * (matrixOf inFeatures outFeatures layer.weights)ᵀ ∧
      matrixOf inFeatures outFeatures dWeights = matrixOf inFeatures outFeatures layer.dWeights +
        (matrixOf batch inFeatures layer.inputCache)ᵀ * matrixOf batch outFeatures gradient ∧
      matrixOf 1 outFeatures dBias = matrixOf 1 outFeatures layer.dBias +
        (ones α batch)ᵀ * matrixOf batch outFeatures gradient := by
  obtain ⟨current, multiplied, currentRowMajor, current_eq⟩ :=
    matmul_represents cached.represents.transpose rowMajor.represents features.weights.fits
  obtain ⟨dWeights, addedWeights, dWeightsRowMajor, dWeights_eq⟩ := addEach_matrix features.dWeights
    fun i j => currentRowMajor.atValue_eq i.isLt j.isLt
  obtain ⟨dBias, addedBias, dBiasRowMajor, dBias_eq⟩ := addEach_columns features.dBias rowMajor
  obtain ⟨dInput, multiplied', dInputRowMajor, dInput_eq⟩ :=
    matmul_represents rowMajor.represents features.weights.represents.transpose cached.fits
  refine ⟨dInput, dWeights, dBias, ?_, dInputRowMajor, dWeightsRowMajor, dBiasRowMajor, dInput_eq, ?_, dBias_eq⟩
  · rw [DenseLayer.backward]
    simp only [multiplied, Option.bind_eq_bind, Option.bind_some, features.dWeights.rows_eq, features.dWeights.cols_eq,
      addedWeights, rowMajor.rows_eq, rowMajor.cols_eq, addedBias, multiplied']
  · exact dWeights_eq.trans (congrArg _ current_eq)

/-- The changes of `X * W + b` that perturbations make, seen through `G`, are what `D`, `dW` and `db` make of them. -/
def IsAdjoint (X : Matrix (Fin batch) (Fin inFeatures) α) (W : Matrix (Fin inFeatures) (Fin outFeatures) α)
    (G : Matrix (Fin batch) (Fin outFeatures) α) (D : Matrix (Fin batch) (Fin inFeatures) α)
    (dW : Matrix (Fin inFeatures) (Fin outFeatures) α) (db : Matrix (Fin 1) (Fin outFeatures) α) : Prop :=
  ∀ δX δW δb, pairing G (δX * W + X * δW + ones α batch * δb) = pairing D δX + pairing dW δW + pairing db δb

/-- `forward` returns `X * W + ones * b`, and `backward` the adjoint for the input, and it adds the ones for the weights and
the bias. -/
def Accumulates (inFeatures outFeatures batch : Nat) (layer : DenseLayer α) (input gradient : Tensor2D α)
    (after : DenseLayer α) : Prop :=
  ∃ output forwarded dInput dW db,
    layer.forward input = some (output, forwarded) ∧ forwarded.backward gradient = some (dInput, after) ∧
    IsRowMajor batch outFeatures output ∧ matrixOf batch outFeatures output =
      matrixOf batch inFeatures input * matrixOf inFeatures outFeatures layer.weights +
        ones α batch * matrixOf 1 outFeatures layer.bias ∧
    IsRowMajor batch inFeatures dInput ∧ HasFeatures inFeatures outFeatures after ∧ after.weights = layer.weights ∧
    after.bias = layer.bias ∧
    IsAdjoint (matrixOf batch inFeatures input) (matrixOf inFeatures outFeatures layer.weights)
      (matrixOf batch outFeatures gradient) (matrixOf batch inFeatures dInput) dW db ∧
    matrixOf inFeatures outFeatures after.dWeights = matrixOf inFeatures outFeatures layer.dWeights + dW ∧
    matrixOf 1 outFeatures after.dBias = matrixOf 1 outFeatures layer.dBias + db

theorem accumulates (features : HasFeatures inFeatures outFeatures layer)
    (inputRowMajor : IsRowMajor batch inFeatures input) (gradientRowMajor : IsRowMajor batch outFeatures gradient) :
    ∃ after, Accumulates inFeatures outFeatures batch layer input gradient after := by
  obtain ⟨output, forwarded, outputRowMajor, output_eq⟩ := forward_spec features inputRowMajor gradientRowMajor.fits
  have cached : HasFeatures inFeatures outFeatures { layer with inputCache := input } :=
    ⟨features.weights, features.bias, features.dWeights, features.dBias⟩
  obtain ⟨dInput, dWeights, dBias, backwarded, dInputRowMajor, dWeightsRowMajor, dBiasRowMajor, dInput_eq, dWeights_eq,
    dBias_eq⟩ := backward_spec cached inputRowMajor gradientRowMajor
  refine ⟨_, output, _, dInput, _, _, forwarded, backwarded, outputRowMajor, output_eq, dInputRowMajor,
    ⟨features.weights, features.bias, dWeightsRowMajor, dBiasRowMajor⟩, rfl, rfl, ?_, dWeights_eq, dBias_eq⟩
  intro δX δW δb
  rw [pairing_affine, dInput_eq]

theorem backward_adjoint (features : HasFeatures inFeatures outFeatures layer)
    (inputRowMajor : IsRowMajor batch inFeatures input) (gradientRowMajor : IsRowMajor batch outFeatures gradient) :
    ∃ output forwarded dInput after, layer.zeroGradients.forward input = some (output, forwarded) ∧
      forwarded.backward gradient = some (dInput, after) ∧ IsRowMajor batch outFeatures output ∧
      matrixOf batch outFeatures output =
        matrixOf batch inFeatures input * matrixOf inFeatures outFeatures layer.weights +
          ones α batch * matrixOf 1 outFeatures layer.bias ∧
      IsRowMajor batch inFeatures dInput ∧ after.weights = layer.weights ∧ after.bias = layer.bias ∧
      IsAdjoint (matrixOf batch inFeatures input) (matrixOf inFeatures outFeatures layer.weights)
        (matrixOf batch outFeatures gradient) (matrixOf batch inFeatures dInput)
        (matrixOf inFeatures outFeatures after.dWeights) (matrixOf 1 outFeatures after.dBias) ∧
      ∀ batch' input' gradient', IsRowMajor batch' inFeatures input' → IsRowMajor batch' outFeatures gradient' →
        ∃ after', Accumulates inFeatures outFeatures batch' after input' gradient' after' := by
  obtain ⟨after, output, forwarded, dInput, dW, db, forward, backward, outputRowMajor, output_eq, dInputRowMajor,
    features', weights, bias, adjoint, dWeights, dBias⟩ := accumulates features.zeroGradients inputRowMajor gradientRowMajor
  have dWeights_eq : matrixOf inFeatures outFeatures after.dWeights = dW :=
    dWeights.trans (by rw [DenseLayer.zeroGradients, matrixOf_fillZero features.dWeights, zero_add])
  have dBias_eq : matrixOf 1 outFeatures after.dBias = db :=
    dBias.trans (by rw [DenseLayer.zeroGradients, matrixOf_fillZero features.dBias, zero_add])
  refine ⟨output, forwarded, dInput, after, forward, backward, outputRowMajor, output_eq, dInputRowMajor, weights, bias,
    ?_, ?_⟩
  · rw [dWeights_eq, dBias_eq]
    exact adjoint
  · intro batch' input' gradient' inputRowMajor' gradientRowMajor'
    exact accumulates features' inputRowMajor' gradientRowMajor'

theorem backward_adjoint_of_row :
    let layer : DenseLayer Int :=
      { weights := { rows := 2, cols := 1, data := [3, 5] }
        bias := { rows := 1, cols := 1, data := [7] }
        inputCache := { rows := 0, cols := 0, data := [] }
        dWeights := { rows := 2, cols := 1, data := [1, 1] }
        dBias := { rows := 1, cols := 1, data := [1] } }
    let input : Tensor2D Int := { rows := 1, cols := 2, data := [2, 4] }
    let gradient : Tensor2D Int := { rows := 1, cols := 1, data := [6] }
    ∃ output forwarded dInput after, layer.zeroGradients.forward input = some (output, forwarded) ∧
      forwarded.backward gradient = some (dInput, after) ∧ IsRowMajor 1 1 output ∧
      matrixOf 1 1 output = matrixOf 1 2 input * matrixOf 2 1 layer.weights + ones Int 1 * matrixOf 1 1 layer.bias ∧
      IsRowMajor 1 2 dInput ∧ after.weights = layer.weights ∧ after.bias = layer.bias ∧
      IsAdjoint (matrixOf 1 2 input) (matrixOf 2 1 layer.weights) (matrixOf 1 1 gradient) (matrixOf 1 2 dInput)
        (matrixOf 2 1 after.dWeights) (matrixOf 1 1 after.dBias) ∧
      ∀ batch' input' gradient', IsRowMajor batch' 2 input' → IsRowMajor batch' 1 gradient' →
        ∃ after', Accumulates 2 1 batch' after input' gradient' after' := by
  intro layer input gradient
  have features : HasFeatures 2 1 layer :=
    ⟨⟨rfl, rfl, rfl, rfl, by decide⟩, ⟨rfl, rfl, rfl, rfl, by decide⟩, ⟨rfl, rfl, rfl, rfl, by decide⟩,
      ⟨rfl, rfl, rfl, rfl, by decide⟩⟩
  exact backward_adjoint features ⟨rfl, rfl, rfl, rfl, by decide⟩ ⟨rfl, rfl, rfl, rfl, by decide⟩

end KnowledgeAcquisition.Proof.MachineLearning
