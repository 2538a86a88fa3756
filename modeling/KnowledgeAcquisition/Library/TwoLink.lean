import Mathlib

/-!
# Planar arms of two links

A first link of length `a` at the angle `θ`, and a second one of length `b` that turns by `φ` against it. The elbow
decides how far from the base the arm ends, and the shoulder in which direction.
-/

namespace KnowledgeAcquisition.Library.TwoLink
open Complex

noncomputable section

def bent (a b φ : ℝ) : ℂ := a + b * exp (φ * I)

def tip (a b θ φ : ℝ) : ℂ := exp (θ * I) * bent a b φ

variable {a b θ φ : ℝ} {z : ℂ}

theorem tip_re : (tip a b θ φ).re = a * Real.cos θ + b * Real.cos (θ + φ) := by
  have sum : exp (θ * I) * exp (φ * I) = exp ((θ + φ : ℝ) * I) := by
    rw [← exp_add, ofReal_add, add_mul]
  rw [tip, bent, mul_add, mul_left_comm, sum, mul_comm, add_re, re_ofReal_mul, re_ofReal_mul, exp_ofReal_mul_I_re,
    exp_ofReal_mul_I_re]

theorem tip_im : (tip a b θ φ).im = a * Real.sin θ + b * Real.sin (θ + φ) := by
  have sum : exp (θ * I) * exp (φ * I) = exp ((θ + φ : ℝ) * I) := by
    rw [← exp_add, ofReal_add, add_mul]
  rw [tip, bent, mul_add, mul_left_comm, sum, mul_comm, add_im, im_ofReal_mul, im_ofReal_mul, exp_ofReal_mul_I_im,
    exp_ofReal_mul_I_im]

theorem norm_tip : ‖tip a b θ φ‖ = ‖bent a b φ‖ := by
  rw [tip, norm_mul, norm_exp_ofReal_mul_I, one_mul]

theorem normSq_bent : normSq (bent a b φ) = a * a + b * b + 2 * a * b * Real.cos φ := by
  rw [bent, normSq_apply, add_re, add_im, re_ofReal_mul, im_ofReal_mul, exp_ofReal_mul_I_re, exp_ofReal_mul_I_im,
    ofReal_re, ofReal_im]
  linear_combination b * b * Real.sin_sq_add_cos_sq φ

def elbow (a b : ℝ) (z : ℂ) : ℝ := (normSq z - a * a - b * b) / (a * b + a * b)

theorem norm_bent_iff (first : 0 < a) (second : 0 < b) : ‖bent a b φ‖ = ‖z‖ ↔ Real.cos φ = elbow a b z := by
  have twice : a * b + a * b ≠ 0 := by positivity
  have squares : ‖bent a b φ‖ = ‖z‖ ↔ normSq (bent a b φ) = normSq z := by
    rw [normSq_eq_norm_sq, normSq_eq_norm_sq, sq_eq_sq₀ (norm_nonneg _) (norm_nonneg _)]
  rw [squares, normSq_bent, elbow, eq_div_iff twice]
  constructor <;> intro same <;> linarith

theorem elbow_mem_iff (first : 0 < a) (second : 0 < b) :
    (-1 ≤ elbow a b z ∧ elbow a b z ≤ 1) ↔ |a - b| ≤ ‖z‖ ∧ ‖z‖ ≤ a + b := by
  have twice : 0 < a * b + a * b := by positivity
  have inner : |a - b| ≤ ‖z‖ ↔ (a - b) ^ 2 ≤ ‖z‖ ^ 2 := by
    rw [← abs_norm z, ← sq_le_sq, abs_norm]
  have outer : ‖z‖ ≤ a + b ↔ ‖z‖ ^ 2 ≤ (a + b) ^ 2 :=
    (sq_le_sq₀ (norm_nonneg z) (by positivity)).symm
  rw [elbow, le_div_iff₀ twice, div_le_iff₀ twice, normSq_eq_norm_sq, inner, outer]
  constructor <;> rintro ⟨low, high⟩ <;> constructor <;> linarith

theorem tip_shoulder (far : ‖bent a b φ‖ = ‖z‖) : tip a b (arg z - arg (bent a b φ)) φ = z := by
  calc
    tip a b (arg z - arg (bent a b φ)) φ
        = exp (arg z * I) * exp (-(arg (bent a b φ) * I)) * (‖bent a b φ‖ * exp (arg (bent a b φ) * I)) := by
          rw [tip, ofReal_sub, sub_mul, sub_eq_add_neg, exp_add, norm_mul_exp_arg_mul_I]
    _ = ‖bent a b φ‖ * exp (arg z * I) * (exp (-(arg (bent a b φ) * I)) * exp (arg (bent a b φ) * I)) := by ring
    _ = ‖z‖ * exp (arg z * I) := by rw [← exp_add, neg_add_cancel, exp_zero, mul_one, far]
    _ = z := norm_mul_exp_arg_mul_I z

theorem exp_congr {α β : ℝ} (angles : (α : Real.Angle) = β) : exp (α * I) = exp (β * I) := by
  apply Complex.ext
  · rw [exp_ofReal_mul_I_re, exp_ofReal_mul_I_re, ← Real.Angle.cos_coe, angles, Real.Angle.cos_coe]
  · rw [exp_ofReal_mul_I_im, exp_ofReal_mul_I_im, ← Real.Angle.sin_coe, angles, Real.Angle.sin_coe]

theorem bent_congr {φ' : ℝ} (bend : (φ : Real.Angle) = φ') : bent a b φ = bent a b φ' := by
  rw [bent, bent, exp_congr bend]

/-- For every bend of the elbow that goes as far out as `z`, exactly one direction of the shoulder gets there. -/
theorem tip_eq_iff (off : z ≠ 0) :
    tip a b θ φ = z ↔ ‖bent a b φ‖ = ‖z‖ ∧ (θ : Real.Angle) = (arg z - arg (bent a b φ) : ℝ) := by
  constructor
  · rintro rfl
    refine ⟨norm_tip.symm, ?_⟩
    have straight : bent a b φ ≠ 0 := right_ne_zero_of_mul off
    have turned : (arg (tip a b θ φ) : Real.Angle) = arg (exp (θ * I)) + arg (bent a b φ) :=
      arg_mul_coe_angle (exp_ne_zero _) straight
    have direction : (arg (exp (θ * I)) : Real.Angle) = θ := by
      rw [exp_mul_I, ← ofReal_cos, ← ofReal_sin]
      exact arg_cos_add_sin_mul_I_coe_angle θ
    rw [Real.Angle.coe_sub, turned, direction, add_sub_cancel_right]
  · rintro ⟨far, shoulder⟩
    rw [tip, exp_congr shoulder]
    exact tip_shoulder far

theorem cos_arg_unit {c s : ℝ} (unit : c * c + s * s = 1) : Real.cos (arg ⟨c, s⟩) = c ∧ Real.sin (arg ⟨c, s⟩) = s := by
  have norm : ‖(⟨c, s⟩ : ℂ)‖ = 1 := by
    rw [norm_def, normSq_mk, unit, Real.sqrt_one]
  have off : (⟨c, s⟩ : ℂ) ≠ 0 := norm_ne_zero_iff.mp (norm ▸ one_ne_zero)
  rw [cos_arg off, sin_arg, norm, div_one, div_one]
  exact ⟨rfl, rfl⟩

theorem exp_arg_unit {c s : ℝ} (unit : c * c + s * s = 1) : exp (arg ⟨c, s⟩ * I) = ⟨c, s⟩ := by
  obtain ⟨cosine, sine⟩ := cos_arg_unit unit
  apply Complex.ext
  · rw [exp_ofReal_mul_I_re, cosine]
  · rw [exp_ofReal_mul_I_im, sine]

theorem cos_eq_iff_arg {c s : ℝ} (unit : c * c + s * s = 1) :
    Real.cos φ = c ↔ (φ : Real.Angle) = arg ⟨c, s⟩ ∨ (φ : Real.Angle) = arg ⟨c, -s⟩ := by
  have mirrored : c * c + -s * -s = 1 := by rw [neg_mul_neg, unit]
  obtain ⟨cosine, sine⟩ := cos_arg_unit unit
  obtain ⟨cosine', sine'⟩ := cos_arg_unit mirrored
  constructor
  · intro same
    have squares : Real.sin φ * Real.sin φ = s * s := by
      have circle := Real.sin_sq_add_cos_sq φ
      rw [same, sq, sq] at circle
      linarith
    rcases mul_self_eq_mul_self_iff.mp squares with up | down
    · exact Or.inl (Real.Angle.cos_sin_inj (same.trans cosine.symm) (up.trans sine.symm))
    · exact Or.inr (Real.Angle.cos_sin_inj (same.trans cosine'.symm) (down.trans sine'.symm))
  · rintro (up | down)
    · rw [← Real.Angle.cos_coe, up, Real.Angle.cos_coe, cosine]
    · rw [← Real.Angle.cos_coe, down, Real.Angle.cos_coe, cosine']

end

end KnowledgeAcquisition.Library.TwoLink
