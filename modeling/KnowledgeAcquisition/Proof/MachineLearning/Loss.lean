import KnowledgeAcquisition.MachineLearning.Training
import KnowledgeAcquisition.Proof.MachineLearning.Conv2DLayer
import KnowledgeAcquisition.Proof.MachineLearning.Descent
import Mathlib.Algebra.BigOperators.Field

/-!
# The loss and its gradient

`MSELoss::backward` is the derivative of `MSELoss::forward`, so that a step of gradient descent lowers the loss of its batch
to first order.
-/

namespace KnowledgeAcquisition.Proof.MachineLearning
open KnowledgeAcquisition.MachineLearning Library Tensor2D TrivSqZeroExt DualNumber

variable {α : Type*} {rows cols batch a c : Nat}

section Values

variable [CommRing α] [Div α] {pred target : Tensor2D α}

def squaredErrors (P T : Matrix (Fin rows) (Fin cols) α) : α := ∑ i, ∑ j, (P i j - T i j) * (P i j - T i j)

omit [Div α] in
theorem sum_grid (f : Nat → Nat → α) :
    ∑ i : Fin rows, ∑ j : Fin cols, f i j = ∑ i ∈ Finset.range rows, ∑ j ∈ Finset.range cols, f i j := by
  rw [Fin.sum_univ_eq_sum_range fun i => ∑ j : Fin cols, f i j]
  exact Finset.sum_congr rfl fun i _ => Fin.sum_univ_eq_sum_range (f i) cols

theorem loss_forward (predRowMajor : IsRowMajor rows cols pred) (targetRowMajor : IsRowMajor rows cols target) :
    MSELoss.forward pred target =
      some (squaredErrors (matrixOf rows cols pred) (matrixOf rows cols target) / ((rows * cols : Nat) : α)) := by
  have shapes : ¬ (pred.rows ≠ target.rows ∨ pred.cols ≠ target.cols) := by
    simp [predRowMajor.rows_eq, predRowMajor.cols_eq, targetRowMajor.rows_eq, targetRowMajor.cols_eq]
  have summed : (forEach rows 0 fun totalLoss i => forEach cols totalLoss fun totalLoss j => do
      let p ← pred.atValue i j
      let t ← target.atValue i j
      let diff := p - t
      some (totalLoss + diff * diff)) =
        some (squaredErrors (matrixOf rows cols pred) (matrixOf rows cols target)) := by
    rw [squaredErrors, ← zero_add (∑ i, _)]
    simp only [matrixOf, sum_grid fun i j => (element pred i j - element target i j) * (element pred i j - element target i j)]
    apply forEach_sum
    intro i sum row
    apply forEach_sum
    intro j sum col
    rw [predRowMajor.atValue_eq row col, targetRowMajor.atValue_eq row col]
    rfl
  rw [MSELoss.forward, if_neg shapes, predRowMajor.rows_eq, predRowMajor.cols_eq, sizeT_eq predRowMajor.fits]
  exact congrArg (Option.bind · _) summed

theorem loss_backward (predRowMajor : IsRowMajor rows cols pred) (targetRowMajor : IsRowMajor rows cols target) :
    ∃ gradient, MSELoss.backward pred target = some gradient ∧ IsRowMajor rows cols gradient ∧
      matrixOf rows cols gradient = fun i j =>
        (1 + 1) / ((rows * cols : Nat) : α) * (matrixOf rows cols pred i j - matrixOf rows cols target i j) := by
  obtain ⟨blank, made, blankRowMajor⟩ := new_rowMajor (α := α) predRowMajor.fits
  rw [MSELoss.backward, predRowMajor.rows_eq, predRowMajor.cols_eq, made, sizeT_eq predRowMajor.fits]
  apply assignEach_entries blankRowMajor
  intro now i j _ _
  rw [predRowMajor.atValue_eq i.isLt j.isLt, targetRowMajor.atValue_eq i.isLt j.isLt]
  rfl

end Values

/-! ## The derivative -/

section Derivative

variable [Field α] {target : Tensor2D α} {moved : Tensor2D α[ε]}

theorem fst_squaredErrors (P : Matrix (Fin rows) (Fin cols) α[ε]) (T : Matrix (Fin rows) (Fin cols) α) :
    (squaredErrors P fun i j => inl (T i j)).fst = squaredErrors (base P) T := by
  simp [squaredErrors, base, fst_sum]

theorem snd_squaredErrors (P : Matrix (Fin rows) (Fin cols) α[ε]) (T : Matrix (Fin rows) (Fin cols) α) :
    (squaredErrors P fun i j => inl (T i j)).snd =
      pairing (fun i j => (1 + 1) * (base P i j - T i j)) (change P) := by
  simp only [squaredErrors, pairing, snd_sum]
  refine Finset.sum_congr rfl fun i _ => Finset.sum_congr rfl fun j _ => ?_
  simp [base, change]
  ring

theorem loss_differentiates (movedRowMajor : IsRowMajor rows cols moved) (targetRowMajor : IsRowMajor rows cols target) :
    ∃ loss gradient, MSELoss.forward (real moved) target = some loss ∧
      MSELoss.backward (real moved) target = some gradient ∧ IsRowMajor rows cols gradient ∧
        MSELoss.forward moved (unchanged target) = some (inl loss + inr (slope gradient moved)) := by
  have realRowMajor : IsRowMajor rows cols (real moved) := movedRowMajor.map fst
  obtain ⟨gradient, passed, gradientRowMajor, gradient_eq⟩ := loss_backward realRowMajor targetRowMajor
  refine ⟨_, gradient, loss_forward realRowMajor targetRowMajor, passed, gradientRowMajor, ?_⟩
  have target_eq : matrixOf rows cols (unchanged target) = fun i j => inl (matrixOf rows cols target i j) := by
    rw [unchanged, matrixOf_map inl targetRowMajor]
    rfl
  have movedTarget : IsRowMajor rows cols (unchanged target) := targetRowMajor.map inl
  rw [loss_forward movedRowMajor movedTarget, div_natCast, target_eq, fst_squaredErrors, snd_squaredErrors,
    real_matrix movedRowMajor, slope_eq gradientRowMajor, gradient_eq, real_matrix movedRowMajor]
  congr 3
  simp only [pairing, Finset.sum_div]
  refine Finset.sum_congr rfl fun i _ => Finset.sum_congr rfl fun j _ => ?_
  ring

end Derivative

end KnowledgeAcquisition.Proof.MachineLearning
