import KnowledgeAcquisition.Library.Pairing
import Mathlib.Algebra.DualNumber
import Mathlib.Algebra.Field.Basic
import Mathlib.Data.Matrix.Basic
import Mathlib.Data.Prod.Lex

/-!
# First-order changes

A dual number `x + y * ε` is an element with a change, and what is computed with dual numbers changes as the product rule
says. Dual numbers are ordered by the element first, so that a comparison with zero is one of the elements unless the
element is zero.
-/

namespace KnowledgeAcquisition.Library
open Matrix TrivSqZeroExt DualNumber

variable {α : Type*}

instance lexicographic [LinearOrder α] : LinearOrder α[ε] :=
  LinearOrder.lift' (fun x => toLex (x.fst, x.snd)) fun x y same => by
    have parts := Prod.ext_iff.mp (toLex.injective same)
    exact TrivSqZeroExt.ext parts.1 parts.2

/-- What `f` with the derivative `f'` makes of a dual number. -/
def extend (f f' : α → α) [Mul α] (x : α[ε]) : α[ε] := (f x.fst, f' x.fst * x.snd)

@[simp] theorem fst_extend (f f' : α → α) [Mul α] (x : α[ε]) : (extend f f' x).fst = f x.fst := rfl

@[simp] theorem snd_extend (f f' : α → α) [Mul α] (x : α[ε]) : (extend f f' x).snd = f' x.fst * x.snd := rfl

theorem dual_pos_iff [LinearOrder α] [Zero α] {x : α[ε]} (regular : x.fst ≠ 0) : x > 0 ↔ x.fst > 0 := by
  have less : x > 0 ↔ toLex ((0 : α), (0 : α)) < toLex (x.fst, x.snd) := Iff.rfl
  rw [less, Prod.Lex.toLex_lt_toLex]
  simp [Ne.symm regular]

instance quotient [Field α] : Div α[ε] := ⟨fun x y => x * y⁻¹⟩

theorem div_natCast [Field α] (x : α[ε]) (n : Nat) : x / (n : α[ε]) = inl (x.fst / n) + inr (x.snd / n) := by
  have quotient_eq : x / (n : α[ε]) = x * (n : α[ε])⁻¹ := rfl
  rw [quotient_eq]
  ext
  · simp [div_eq_mul_inv]
  · simp [div_eq_mul_inv, mul_comm]

variable {m n k : Type*}

def base (A : Matrix m n α[ε]) : Matrix m n α := A.map fst

def change (A : Matrix m n α[ε]) : Matrix m n α := A.map snd

section Products

variable [CommRing α] [Fintype k]

theorem base_mul (A : Matrix m k α[ε]) (B : Matrix k n α[ε]) : base (A * B) = base A * base B :=
  Matrix.map_mul (f := fstHom α α α)

theorem base_add (A B : Matrix m n α[ε]) : base (A + B) = base A + base B := rfl

theorem change_add (A B : Matrix m n α[ε]) : change (A + B) = change A + change B := rfl

theorem change_mul (A : Matrix m k α[ε]) (B : Matrix k n α[ε]) :
    change (A * B) = base A * change B + change A * base B := by
  funext i j
  have sum : (A * B) i j = ∑ l, A i l * B l j := rfl
  rw [change, Matrix.map_apply, sum, snd_sum, Matrix.add_apply, Matrix.mul_apply, Matrix.mul_apply,
    ← Finset.sum_add_distrib]
  rfl

end Products

variable [CommRing α] [Fintype m] [Fintype n]

theorem pairing_scaled (G A B : Matrix m n α) :
    pairing G (fun i j => A i j * B i j) = pairing (fun i j => G i j * A i j) B := by
  unfold pairing
  refine Finset.sum_congr rfl fun i _ => Finset.sum_congr rfl fun j _ => ?_
  rw [mul_assoc]

end KnowledgeAcquisition.Library
