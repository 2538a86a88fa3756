import KnowledgeAcquisition.Proof.MachineLearning.Layers
import Mathlib.Analysis.SpecialFunctions.Sigmoid

/-!
# The derivative in the sigmoid layer

The layer keeps its output, and `sigmoid_backward` takes the logistic function of what it is kept in once more.
-/

namespace KnowledgeAcquisition.Proof.MachineLearning
open KnowledgeAcquisition.MachineLearning Library Tensor2D

variable {rows cols : Nat} {input : Tensor2D ℝ}

noncomputable def logistic (x : ℝ) : ℝ := 1 / (1 + Real.exp (-x))

theorem logistic_eq : logistic = Real.sigmoid := by
  funext x
  rw [logistic, Real.sigmoid_def, one_div]

/-- `backward` gives what the gradient makes of the derivative of the outputs. -/
def BackwardIsDerivative (rows cols : Nat) (coefficients : Coefficients ℝ) (input : Tensor2D ℝ) : Prop :=
  ∀ cache gradient, IsRowMajor rows cols gradient → ∃ output forwarded dInput after,
    (Layer.sigmoid cache).forward coefficients input = some (output, forwarded) ∧
      forwarded.backward coefficients gradient = some (dInput, after) ∧
      ∀ (i : Fin rows) (j : Fin cols), matrixOf rows cols dInput i j =
        matrixOf rows cols gradient i j * deriv coefficients.logistic (matrixOf rows cols input i j)

theorem slope_twice_eq_iff (x : ℝ) :
    Real.sigmoid (Real.sigmoid x) * (1 - Real.sigmoid (Real.sigmoid x)) = Real.sigmoid x * (1 - Real.sigmoid x) ↔
      Real.sigmoid x = x ∨ Real.sigmoid x = -x := by
  have factor : Real.sigmoid (Real.sigmoid x) * (1 - Real.sigmoid (Real.sigmoid x)) -
      Real.sigmoid x * (1 - Real.sigmoid x) =
        (Real.sigmoid (Real.sigmoid x) - Real.sigmoid x) * (Real.sigmoid (-x) - Real.sigmoid (Real.sigmoid x)) := by
    rw [Real.sigmoid_neg]
    ring
  rw [← sub_eq_zero, factor, mul_eq_zero, sub_eq_zero, sub_eq_zero, Real.sigmoid_inj, Real.sigmoid_inj,
    eq_comm (a := -x)]

theorem backwardIsDerivative_iff (leak : ℝ) (rowMajor : IsRowMajor rows cols input) :
    BackwardIsDerivative rows cols { leak, logistic } input ↔
      ∀ (i : Fin rows) (j : Fin cols), logistic (matrixOf rows cols input i j) = matrixOf rows cols input i j ∨
        logistic (matrixOf rows cols input i j) = -matrixOf rows cols input i j := by
  rw [logistic_eq]
  obtain ⟨output, made, outputRowMajor, output_eq⟩ := sigmoid_spec Real.sigmoid rowMajor
  have backward : ∀ gradient, IsRowMajor rows cols gradient → ∃ dInput,
      output.sigmoidBackward Real.sigmoid gradient = some dInput ∧ ∀ (i : Fin rows) (j : Fin cols),
        matrixOf rows cols dInput i j = matrixOf rows cols gradient i j *
          (Real.sigmoid (Real.sigmoid (matrixOf rows cols input i j)) *
            (1 - Real.sigmoid (Real.sigmoid (matrixOf rows cols input i j)))) := by
    intro gradient gradientRowMajor
    obtain ⟨dInput, passed, _, dInput_eq⟩ := sigmoidBackward_spec Real.sigmoid outputRowMajor gradientRowMajor
    refine ⟨dInput, passed, fun i j => ?_⟩
    rw [dInput_eq, output_eq]
    exact mul_assoc _ _ _
  constructor
  · intro derivative i j
    obtain ⟨ones, onesRowMajor, ones_eq⟩ : ∃ ones : Tensor2D ℝ, IsRowMajor rows cols ones ∧
        matrixOf rows cols ones = fun _ _ => 1 := by
      obtain ⟨ones, _, onesRowMajor, ones_eq⟩ :=
        @assignData_spec ℝ rows cols _ input (fun _ => some 1) (fun _ _ => 1) rowMajor fun _ _ => rfl
      exact ⟨ones, onesRowMajor, ones_eq⟩
    obtain ⟨output', forwarded, dInput, after, ran, passed, entries⟩ := derivative output ones onesRowMajor
    obtain ⟨dInput', passed', entries'⟩ := backward ones onesRowMajor
    rw [Layer.forward, made] at ran
    obtain ⟨rfl, rfl⟩ := Prod.mk.inj (Option.some.inj ran)
    rw [Layer.backward, passed'] at passed
    obtain ⟨rfl, rfl⟩ := Prod.mk.inj (Option.some.inj passed)
    rw [← slope_twice_eq_iff]
    have same := (entries' i j).symm.trans (entries i j)
    rwa [ones_eq, one_mul, one_mul, Real.deriv_sigmoid] at same
  · intro fixed cache gradient gradientRowMajor
    obtain ⟨dInput, passed, entries⟩ := backward gradient gradientRowMajor
    refine ⟨output, .sigmoid output, dInput, .sigmoid output, ?_, ?_, ?_⟩
    · simp [Layer.forward, made]
    · simp [Layer.backward, passed]
    · intro i j
      rw [entries i j, (slope_twice_eq_iff _).mpr (fixed i j), Real.deriv_sigmoid]

theorem backwardIsDerivative_zero :
    let input : Tensor2D ℝ := { rows := 1, cols := 1, data := [0] }
    BackwardIsDerivative 1 1 { leak := 0, logistic } input ↔
      ∀ (i : Fin 1) (j : Fin 1), logistic (matrixOf 1 1 input i j) = matrixOf 1 1 input i j ∨
        logistic (matrixOf 1 1 input i j) = -matrixOf 1 1 input i j := by
  intro input
  exact backwardIsDerivative_iff 0 ⟨rfl, rfl, rfl, rfl, by decide⟩

end KnowledgeAcquisition.Proof.MachineLearning
