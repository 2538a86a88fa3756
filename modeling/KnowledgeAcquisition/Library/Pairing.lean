import Mathlib.LinearAlgebra.Matrix.Trace

/-!
# The pairing of matrices

The sum of the products of the elements, against which a product with a matrix is moved from one side to the other.
-/

namespace KnowledgeAcquisition.Library
open Matrix

variable {m n k α : Type*} [Fintype m] [Fintype n] [Fintype k] [CommRing α]

def pairing (A B : Matrix m n α) : α := ∑ i, ∑ j, A i j * B i j

theorem pairing_eq_trace (A B : Matrix m n α) : pairing A B = (Aᵀ * B).trace := by
  rw [pairing, Finset.sum_comm]
  rfl

theorem pairing_add (A B C : Matrix m n α) : pairing A (B + C) = pairing A B + pairing A C := by
  rw [pairing_eq_trace, pairing_eq_trace, pairing_eq_trace, Matrix.mul_add, trace_add]

theorem add_pairing (A B C : Matrix m n α) : pairing (A + B) C = pairing A C + pairing B C := by
  rw [pairing_eq_trace, pairing_eq_trace, pairing_eq_trace, transpose_add, Matrix.add_mul, trace_add]

theorem pairing_mul_left (A : Matrix m n α) (B : Matrix m k α) (C : Matrix k n α) :
    pairing A (B * C) = pairing (Bᵀ * A) C := by
  rw [pairing_eq_trace, pairing_eq_trace, transpose_mul, transpose_transpose, Matrix.mul_assoc]

theorem pairing_mul_right (A : Matrix m n α) (B : Matrix m k α) (C : Matrix k n α) :
    pairing A (B * C) = pairing (A * Cᵀ) B := by
  rw [pairing_eq_trace, pairing_eq_trace, transpose_mul, transpose_transpose, ← Matrix.mul_assoc, trace_mul_comm,
    Matrix.mul_assoc]

theorem pairing_affine {l : Type*} [Fintype l] (G : Matrix m n α) (X δX : Matrix m k α) (W δW : Matrix k n α)
    (O : Matrix m l α) (δb : Matrix l n α) :
    pairing G (δX * W + X * δW + O * δb) =
      pairing (G * Wᵀ) δX + pairing (Xᵀ * G) δW + pairing (Oᵀ * G) δb := by
  rw [pairing_add, pairing_add, pairing_mul_right, pairing_mul_left, pairing_mul_left]

end KnowledgeAcquisition.Library
