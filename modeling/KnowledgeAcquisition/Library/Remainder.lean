import KnowledgeAcquisition.Library.Register
import Mathlib.Algebra.Field.ZMod
import Mathlib.RingTheory.AdjoinRoot

/-!
# Feedback shift registers as remainders

The bits of a word, the lowest one first, are the coefficients of a polynomial over the field of two elements from
the highest one down. A turn of the register is a multiplication by `X` modulo the generator, so that the register
after some inputs is the remainder of the message they spell.
-/

namespace KnowledgeAcquisition.Library.Register
open Polynomial

noncomputable section

variable {w n : Nat}

def coefficient (bit : Bool) : ZMod 2 := if bit then 1 else 0

theorem coefficient_xor (a b : Bool) : coefficient (a ^^ b) = coefficient a + coefficient b := by
  cases a <;> cases b <;> decide

theorem coefficient_and (a b : Bool) : coefficient (a && b) = coefficient a * coefficient b := by
  cases a <;> cases b <;> decide

theorem coefficient_injective : Function.Injective coefficient := by decide

def value (x : BitVec w) : (ZMod 2)[X] := ∑ k ∈ Finset.range w, C (coefficient (x.getMsbD k)) * X ^ k

theorem coeff_value (x : BitVec w) (k : Nat) : (value x).coeff k = coefficient (x.getMsbD k) := by
  rw [value, finsetSum_coeff]
  simp only [coeff_C_mul_X_pow]
  rw [Finset.sum_ite_eq]
  split_ifs with inside
  · rfl
  · rw [BitVec.getMsbD_of_ge x k (by simpa using inside)]
    rfl

theorem value_xor (x y : BitVec w) : value (x ^^^ y) = value x + value y := by
  ext k
  rw [coeff_add, coeff_value, coeff_value, coeff_value, BitVec.getMsbD_xor, coefficient_xor]

theorem value_injective : Function.Injective (value : BitVec w → (ZMod 2)[X]) := by
  intro x y same
  apply BitVec.eq_of_getMsbD_eq
  intro k _
  apply coefficient_injective
  rw [← coeff_value, ← coeff_value, same]

theorem degree_value_lt (x : BitVec w) : (value x).degree < w := by
  apply (degree_lt_iff_coeff_zero _ _).mpr
  intro k beyond
  rw [coeff_value, BitVec.getMsbD_of_ge x k beyond]
  rfl

theorem value_setWidth (fits : n ≤ w) (x : BitVec n) : value (x.setWidth w) = X ^ (w - n) * value x := by
  ext k
  rw [coeff_X_pow_mul', coeff_value]
  split_ifs with high
  · rw [coeff_value, BitVec.getMsbD_eq_getLsbD, BitVec.getMsbD_eq_getLsbD, BitVec.getLsbD_setWidth]
    by_cases inside : k < w
    · have place : w - 1 - k = n - 1 - (k - (w - n)) := by omega
      simp [inside, place, show k - (w - n) < n by omega, show n - 1 - (k - (w - n)) < w by omega]
    · simp [inside, show ¬ k - (w - n) < n by omega]
  · rw [BitVec.getMsbD_eq_getLsbD, BitVec.getLsbD_setWidth, BitVec.getLsbD_of_ge x _ (by omega)]
    simp [coefficient]

def generator (poly : BitVec w) : (ZMod 2)[X] := X ^ w + value poly

theorem degree_generator (poly : BitVec w) : (generator poly).degree = w := by
  rw [generator, degree_add_eq_left_of_degree_lt, degree_X_pow]
  rw [degree_X_pow]
  exact degree_value_lt poly

theorem shift_first (poly x : BitVec w) : (shift poly x).getMsbD 0 = (x.getLsbD 0 && poly.getMsbD 0) := by
  rw [BitVec.getMsbD_eq_getLsbD, BitVec.getMsbD_eq_getLsbD, shift_bit, BitVec.getLsbD_of_ge x _ (by omega)]
  cases x.getLsbD 0 <;> simp

theorem shift_succ (poly x : BitVec w) {k : Nat} (inside : k + 1 < w) :
    (shift poly x).getMsbD (k + 1) = (x.getMsbD k ^^ (x.getLsbD 0 && poly.getMsbD (k + 1))) := by
  have place : w - 1 - (k + 1) + 1 = w - 1 - k := by omega
  rw [BitVec.getMsbD_eq_getLsbD, BitVec.getMsbD_eq_getLsbD, BitVec.getMsbD_eq_getLsbD, shift_bit, place]
  simp [inside, Nat.lt_of_succ_lt inside]

/-- The bit that leaves the register has the power `w`, and the generator takes it away. -/
theorem X_mul_value (poly x : BitVec w) :
    X * value x = value (shift poly x) + C (coefficient (x.getLsbD 0)) * generator poly := by
  ext k
  rw [coeff_add, coeff_C_mul, generator, coeff_add, coeff_X_pow, coeff_value, coeff_value]
  cases k with
  | zero =>
      rw [coeff_X_mul_zero, shift_first, coefficient_and]
      cases w with
      | zero => simp [coefficient]
      | succ w => rw [if_neg (Nat.succ_ne_zero w).symm, zero_add, CharTwo.add_self_eq_zero]
  | succ k =>
      rw [coeff_X_mul, coeff_value]
      rcases Nat.lt_trichotomy (k + 1) w with inside | last | beyond
      · rw [if_neg (Nat.ne_of_lt inside), shift_succ poly x inside, coefficient_xor, coefficient_and, zero_add,
          add_assoc, CharTwo.add_self_eq_zero, add_zero]
      · have lowest : x.getMsbD k = x.getLsbD 0 := by
          rw [BitVec.getMsbD_eq_getLsbD, show w - 1 - k = 0 by omega]
          simp [show k < w by omega]
        rw [if_pos last, BitVec.getMsbD_of_ge _ _ (Nat.le_of_eq last.symm),
          BitVec.getMsbD_of_ge poly _ (Nat.le_of_eq last.symm), lowest]
        simp [coefficient]
      · rw [if_neg (Nat.ne_of_gt beyond), BitVec.getMsbD_of_ge x _ (Nat.le_of_lt_succ beyond),
          BitVec.getMsbD_of_ge _ _ (Nat.le_of_lt beyond), BitVec.getMsbD_of_ge poly _ (Nat.le_of_lt beyond)]
        simp [coefficient]

variable {poly : BitVec w}

theorem residue_shift (x : BitVec w) :
    AdjoinRoot.mk (generator poly) (value (shift poly x)) = AdjoinRoot.mk (generator poly) (X * value x) := by
  rw [X_mul_value poly, map_add, map_mul, AdjoinRoot.mk_self, mul_zero, add_zero]

theorem residue_iterate (turns : Nat) (x : BitVec w) :
    AdjoinRoot.mk (generator poly) (value ((shift poly)^[turns] x)) =
      AdjoinRoot.mk (generator poly) (X ^ turns * value x) := by
  induction turns generalizing x with
  | zero => rw [Function.iterate_zero, id, pow_zero, one_mul]
  | succ turns ih =>
      rw [Function.iterate_succ_apply, ih, map_mul, residue_shift, ← map_mul, ← mul_assoc, ← pow_succ]

theorem residue_injective {x y : BitVec w}
    (same : AdjoinRoot.mk (generator poly) (value x) = AdjoinRoot.mk (generator poly) (value y)) : x = y := by
  have divides := AdjoinRoot.mk_eq_mk.mp same
  have small : (value x - value y).degree < (generator poly).degree := by
    rw [degree_generator]
    exact lt_of_le_of_lt (degree_sub_le _ _) (max_lt (degree_value_lt x) (degree_value_lt y))
  exact value_injective (sub_eq_zero.mp (eq_zero_of_dvd_of_degree_lt divides small))

def message : List (BitVec n) → (ZMod 2)[X]
  | [] => 0
  | input :: inputs => X ^ (n * inputs.length) * value input + message inputs

theorem residue_absorb (fits : n ≤ w) (x : BitVec w) (input : BitVec n) :
    AdjoinRoot.mk (generator poly) (value (absorb poly x input)) =
      AdjoinRoot.mk (generator poly) (X ^ n * value x + X ^ w * value input) := by
  have powers : (X : (ZMod 2)[X]) ^ n * (X ^ (w - n) * value input) = X ^ w * value input := by
    rw [← mul_assoc, ← pow_add, Nat.add_sub_cancel' fits]
  rw [absorb, residue_iterate, value_xor, value_setWidth fits, mul_add, powers]

theorem residue_foldl (fits : n ≤ w) (x : BitVec w) (inputs : List (BitVec n)) :
    AdjoinRoot.mk (generator poly) (value (inputs.foldl (absorb poly) x)) =
      AdjoinRoot.mk (generator poly) (X ^ (n * inputs.length) * value x + X ^ w * message inputs) := by
  induction inputs generalizing x with
  | nil => simp [message]
  | cons input inputs ih =>
      have spelled : X ^ (n * inputs.length) * (X ^ n * value x + X ^ w * value input) + X ^ w * message inputs =
          X ^ (n * (input :: inputs).length) * value x + X ^ w * message (input :: inputs) := by
        rw [message, List.length_cons, Nat.mul_succ, pow_add]
        ring
      rw [List.foldl_cons, ih, map_add, map_mul, residue_absorb fits, ← map_mul, ← map_add, spelled]

theorem foldl_absorb_eq_iff (fits : n ≤ w) (x : BitVec w) (left right : List (BitVec n)) :
    left.foldl (absorb poly) x = right.foldl (absorb poly) x ↔
      generator poly ∣ (X ^ (n * left.length) * value x + X ^ w * message left) -
        (X ^ (n * right.length) * value x + X ^ w * message right) := by
  rw [← AdjoinRoot.mk_eq_mk, ← residue_foldl fits, ← residue_foldl fits]
  constructor
  · intro same
    rw [same]
  · exact residue_injective

end

end KnowledgeAcquisition.Library.Register
