import KnowledgeAcquisition.Library.Dual
import KnowledgeAcquisition.MachineLearning.Layers
import KnowledgeAcquisition.Proof.MachineLearning.DenseLayer
import KnowledgeAcquisition.Proof.MachineLearning.Transposition

/-!
# What the layers compute

The operations on each element as functions on matrices, for tensors that are not transposed.
-/

namespace KnowledgeAcquisition.Proof.MachineLearning
open KnowledgeAcquisition.MachineLearning Library Tensor2D

variable {α β : Type*} {rows cols : Nat}

section Equality

variable [CommRing α] {tensor other : Tensor2D α}

theorem flat_split {k : Nat} (inside : k < rows * cols) : k / cols < rows ∧ k % cols < cols ∧ k / cols * cols + k % cols = k := by
  have positive : 0 < cols := Nat.pos_of_ne_zero fun none => by simp [none] at inside
  refine ⟨Nat.div_lt_of_lt_mul (Nat.mul_comm rows cols ▸ inside), Nat.mod_lt k positive, ?_⟩
  rw [Nat.mul_comm, Nat.div_add_mod]

theorem IsRowMajor.eq_of_matrix (rowMajor : IsRowMajor rows cols tensor) (rowMajor' : IsRowMajor rows cols other)
    (same : matrixOf rows cols tensor = matrixOf rows cols other) : tensor = other := by
  have data : tensor.data = other.data := by
    apply List.ext_getElem?
    intro k
    by_cases inside : k < rows * cols
    · obtain ⟨row, col, whole⟩ := flat_split inside
      rw [← whole, rowMajor.holds.element _ _ row col, rowMajor'.holds.element _ _ row col]
      exact congrArg some (congrFun (congrFun same ⟨_, row⟩) ⟨_, col⟩)
    · rw [List.getElem?_eq_none (rowMajor.length_eq ▸ not_lt.mp inside),
        List.getElem?_eq_none (rowMajor'.length_eq ▸ not_lt.mp inside)]
  obtain ⟨r, c, d, t⟩ := tensor
  obtain ⟨r', c', d', t'⟩ := other
  obtain ⟨rfl, rfl, rfl, -, -⟩ := rowMajor
  obtain ⟨rfl, rfl, rfl, -, -⟩ := rowMajor'
  simp_all

theorem new_rowMajor (fits : rows * cols ≤ maxSize) :
    ∃ blank : Tensor2D α, Tensor2D.new rows cols 0 = some blank ∧ IsRowMajor rows cols blank := by
  have size : sizeT (rows * cols) = rows * cols := sizeT_eq fits
  refine ⟨_, if_neg (not_lt.mpr (size.symm ▸ fits)), rfl, rfl, rfl, ?_, fits⟩
  rw [List.length_replicate, size]

end Equality

section Elements

variable [CommRing α] {tensor gradient : Tensor2D α}

theorem assignData_spec {value : Nat → Option α} {v : Matrix (Fin rows) (Fin cols) α}
    (rowMajor : IsRowMajor rows cols tensor)
    (values : ∀ (i : Fin rows) (j : Fin cols), value (i * cols + j) = some (v i j)) :
    ∃ result, tensor.assignData value = some result ∧ IsRowMajor rows cols result ∧ matrixOf rows cols result = v := by
  obtain ⟨blank, made, blankRowMajor⟩ := new_rowMajor (α := α) rowMajor.fits
  have reads : ∀ k, k < blank.data.length → value k = some ((value k).getD 0) := by
    intro k inside
    obtain ⟨row, col, whole⟩ := flat_split (blankRowMajor.length_eq ▸ inside)
    have read := values ⟨k / cols, row⟩ ⟨k % cols, col⟩
    simp only [whole] at read
    rw [read, Option.getD_some]
  obtain ⟨last, assigned, length, elements⟩ := assignLoop_spec reads
  have lengths : tensor.data.length = blank.data.length := rowMajor.length_eq.trans blankRowMajor.length_eq.symm
  have resultRowMajor := blankRowMajor.replace (length.trans blankRowMajor.length_eq)
  refine ⟨_, ?_, resultRowMajor, ?_⟩
  · rw [assignData, rowMajor.rows_eq, rowMajor.cols_eq, made, lengths]
    exact congrArg (Option.bind · _) assigned
  · funext i j
    have inside : i * cols + j < blank.data.length := blankRowMajor.length_eq ▸ flat_lt i.isLt j.isLt
    have read := elements _ inside
    rw [values i j, Option.getD_some] at read
    exact Option.some.inj ((resultRowMajor.holds.element i j i.isLt j.isLt).symm.trans read)

theorem assignEach_entries {value : Tensor2D α → Nat → Nat → Option α} {v : Matrix (Fin rows) (Fin cols) α}
    (rowMajor : IsRowMajor rows cols tensor)
    (values : ∀ now (i : Fin rows) (j : Fin cols), IsRowMajor rows cols now → element now i j = element tensor i j →
      value now i j = some (v i j)) :
    ∃ result, assignEach rows cols value tensor = some result ∧ IsRowMajor rows cols result ∧
      matrixOf rows cols result = v := by
  -- The elements before `(i, j)` are assigned, the other ones are the old ones.
  let Passed (i j : Nat) (now : Tensor2D α) := IsRowMajor rows cols now ∧ ∀ (i' : Fin rows) (j' : Fin cols),
    element now i' j' = if i' < i ∨ i' = i ∧ j' < j then v i' j' else element tensor i' j'
  have visit : ∀ i j now, i < rows → j < cols → Passed i j now →
      ∃ next, (do
        let assigned ← value now i j
        now.atAssign i j assigned) = some next ∧ Passed i (j + 1) next := by
    rintro i j now row col ⟨nowRowMajor, elements⟩
    have here := elements ⟨i, row⟩ ⟨j, col⟩
    simp only [lt_irrefl, and_false, or_false, if_false] at here
    obtain ⟨data, stored, holds⟩ := nowRowMajor.holds.store row col (v ⟨i, row⟩ ⟨j, col⟩)
    have nextRowMajor := nowRowMajor.replace holds.length_eq
    refine ⟨{ now with data }, ?_, nextRowMajor, ?_⟩
    · rw [values now ⟨i, row⟩ ⟨j, col⟩ nowRowMajor here]
      simp [atAssign, nowRowMajor.atIndex_eq row col, stored]
    · intro i' j'
      rw [nextRowMajor.element_eq holds i'.isLt j'.isLt, elements]
      by_cases written : (i' : Nat) = i ∧ (j' : Nat) = j
      · obtain ⟨rfl, rfl⟩ := written
        simp
      · have same : ((i' : Nat) < i ∨ (i' : Nat) = i ∧ (j' : Nat) < j + 1) =
            ((i' : Nat) < i ∨ (i' : Nat) = i ∧ (j' : Nat) < j) := propext (by omega)
        simp only [written, if_false, same]
  refine forEach_total (I := fun i now => Passed i 0 now) ⟨rowMajor, fun i' j' => by simp⟩ ?_ ?_
  · intro i now row passed
    refine forEach_total (I := fun j now => Passed i j now) passed (fun j now col => visit i j now row col) ?_
    rintro last ⟨lastRowMajor, elements⟩
    refine ⟨lastRowMajor, fun i' j' => ?_⟩
    have same : ((i' : Nat) < i ∨ (i' : Nat) = i ∧ (j' : Nat) < cols) = ((i' : Nat) < i + 1 ∨ (i' : Nat) = i + 1 ∧ (j' : Nat) < 0) :=
      propext (by omega)
    rw [elements]
    simp only [same]
  · rintro last ⟨lastRowMajor, elements⟩
    refine ⟨lastRowMajor, ?_⟩
    funext i j
    rw [matrixOf, elements, if_pos (Or.inl i.isLt)]

variable [LinearOrder α]

theorem relu_spec (rowMajor : IsRowMajor rows cols tensor) :
    ∃ result, tensor.relu = some result ∧ IsRowMajor rows cols result ∧
      matrixOf rows cols result = (matrixOf rows cols tensor).map fun x => if x > 0 then x else 0 := by
  apply assignData_spec rowMajor
  intro i j
  rw [rowMajor.holds.element i j i.isLt j.isLt]
  rfl

theorem reluBackward_spec (rowMajor : IsRowMajor rows cols tensor) (gradientRowMajor : IsRowMajor rows cols gradient) :
    ∃ result, tensor.reluBackward gradient = some result ∧ IsRowMajor rows cols result ∧
      matrixOf rows cols result =
        fun i j => if matrixOf rows cols tensor i j > 0 then matrixOf rows cols gradient i j else 0 := by
  have shapes : ¬ (tensor.rows ≠ gradient.rows ∨ tensor.cols ≠ gradient.cols) := by
    simp [rowMajor.rows_eq, rowMajor.cols_eq, gradientRowMajor.rows_eq, gradientRowMajor.cols_eq]
  rw [reluBackward, if_neg shapes]
  apply assignData_spec rowMajor
  intro i j
  rw [rowMajor.holds.element i j i.isLt j.isLt, gradientRowMajor.holds.element i j i.isLt j.isLt]
  exact (apply_ite some _ _ _).symm

omit [LinearOrder α] in
theorem sigmoid_spec (logistic : α → α) (rowMajor : IsRowMajor rows cols tensor) :
    ∃ result, tensor.sigmoid logistic = some result ∧ IsRowMajor rows cols result ∧
      matrixOf rows cols result = (matrixOf rows cols tensor).map logistic := by
  apply assignData_spec rowMajor
  intro i j
  rw [rowMajor.holds.element i j i.isLt j.isLt]
  rfl

omit [LinearOrder α] in
theorem sigmoidBackward_spec (logistic : α → α) (rowMajor : IsRowMajor rows cols tensor)
    (gradientRowMajor : IsRowMajor rows cols gradient) :
    ∃ result, tensor.sigmoidBackward logistic gradient = some result ∧ IsRowMajor rows cols result ∧
      matrixOf rows cols result = fun i j => matrixOf rows cols gradient i j * logistic (matrixOf rows cols tensor i j) *
        (1 - logistic (matrixOf rows cols tensor i j)) := by
  have shapes : ¬ (tensor.rows ≠ gradient.rows ∨ tensor.cols ≠ gradient.cols) := by
    simp [rowMajor.rows_eq, rowMajor.cols_eq, gradientRowMajor.rows_eq, gradientRowMajor.cols_eq]
  rw [sigmoidBackward, if_neg shapes]
  apply assignData_spec rowMajor
  intro i j
  rw [rowMajor.holds.element i j i.isLt j.isLt, gradientRowMajor.holds.element i j i.isLt j.isLt]
  rfl

theorem leakyForward_spec (leak : α) (rowMajor : IsRowMajor rows cols tensor) :
    ∃ result, LeakyReLULayer.forward leak tensor = some result ∧ IsRowMajor rows cols result ∧
      matrixOf rows cols result = (matrixOf rows cols tensor).map fun x => if x > 0 then x else leak * x := by
  obtain ⟨blank, made, blankRowMajor⟩ := new_rowMajor (α := α) rowMajor.fits
  rw [LeakyReLULayer.forward, rowMajor.rows_eq, rowMajor.cols_eq, made]
  apply assignEach_entries blankRowMajor
  intro now i j _ _
  rw [rowMajor.atValue_eq i.isLt j.isLt]
  rfl

theorem leakyBackward_spec (leak : α) (rowMajor : IsRowMajor rows cols tensor)
    (gradientRowMajor : IsRowMajor rows cols gradient) :
    ∃ result, LeakyReLULayer.backward leak tensor gradient = some result ∧ IsRowMajor rows cols result ∧
      matrixOf rows cols result = fun i j =>
        matrixOf rows cols gradient i j * if matrixOf rows cols tensor i j > 0 then 1 else leak := by
  obtain ⟨blank, made, blankRowMajor⟩ := new_rowMajor (α := α) rowMajor.fits
  rw [LeakyReLULayer.backward, rowMajor.rows_eq, rowMajor.cols_eq, made]
  apply assignEach_entries blankRowMajor
  intro now i j _ _
  rw [rowMajor.atValue_eq i.isLt j.isLt, gradientRowMajor.atValue_eq i.isLt j.isLt]
  rfl

end Elements

end KnowledgeAcquisition.Proof.MachineLearning
