import KnowledgeAcquisition.Library.TwoLink
import KnowledgeAcquisition.Robot.ArmRobot
import Mathlib

/-!
# Kinematics of the arm

The joint angles that `inverseKinematics` returns are those with which the arm gets to the target, as long as the
tolerances of its comparisons do not matter.
-/

namespace KnowledgeAcquisition.Proof.Robot
open KnowledgeAcquisition.Robot Library

variable {robot : ArmRobot} {x y th1 th2 c s : ℝ}

theorem hundred_eq : hundred = 100 := Nat.cast_ofNat

theorem endEffector_tip : robot.endEffector th1 th2 =
    ((TwoLink.tip robot.l1 robot.l2 th1 th2).re, (TwoLink.tip robot.l1 robot.l2 th1 th2).im) := by
  rw [TwoLink.tip_re, TwoLink.tip_im]
  rfl

theorem endEffector_eq_iff : robot.endEffector th1 th2 = (x, y) ↔ TwoLink.tip robot.l1 robot.l2 th1 th2 = ⟨x, y⟩ := by
  rw [endEffector_tip, Prod.mk.injEq, Complex.ext_iff]

theorem cosTh2_elbow : robot.cosTh2 x y = TwoLink.elbow robot.l1 robot.l2 ⟨x, y⟩ := by
  rw [TwoLink.elbow, Complex.normSq_mk, ← two_mul, ← mul_assoc]
  rfl

theorem make_sol_shoulder (unit : c * c + s * s = 1) :
    robot.make_sol x y s c =
      { theta1 := Complex.arg ⟨x, y⟩ - Complex.arg (TwoLink.bent robot.l1 robot.l2 (Complex.arg ⟨c, s⟩))
        theta2 := Complex.arg ⟨c, s⟩ } := by
  have bent : TwoLink.bent robot.l1 robot.l2 (Complex.arg ⟨c, s⟩) = ⟨robot.l1 + robot.l2 * c, robot.l2 * s⟩ := by
    rw [TwoLink.bent, TwoLink.exp_arg_unit unit]
    apply Complex.ext <;> simp
  rw [bent]
  rfl

theorem make_sol_reaches (first : 0 < robot.l1) (second : 0 < robot.l2) (unit : c * c + s * s = 1)
    (bend : robot.cosTh2 x y = c) :
    robot.endEffector (robot.make_sol x y s c).theta1 (robot.make_sol x y s c).theta2 = (x, y) := by
  rw [endEffector_eq_iff, make_sol_shoulder unit]
  apply TwoLink.tip_shoulder
  rw [TwoLink.norm_bent_iff first second, (TwoLink.cos_arg_unit unit).1, ← cosTh2_elbow, bend]

theorem make_sol_angles (unit : c * c + s * s = 1) :
    ((th1 : Real.Angle) = (robot.make_sol x y s c).theta1 ∧ (th2 : Real.Angle) = (robot.make_sol x y s c).theta2) ↔
      (th2 : Real.Angle) = Complex.arg ⟨c, s⟩ ∧
        (th1 : Real.Angle) = (Complex.arg ⟨x, y⟩ - Complex.arg (TwoLink.bent robot.l1 robot.l2 th2) : ℝ) := by
  rw [make_sol_shoulder unit, and_comm]
  refine and_congr_right fun bend => ?_
  rw [TwoLink.bent_congr bend]

def Reachable (robot : ArmRobot) (x y : ℝ) : Prop :=
  |robot.l1 - robot.l2| ≤ Real.sqrt (x * x + y * y) ∧ Real.sqrt (x * x + y * y) ≤ robot.l1 + robot.l2

theorem reachable_iff (first : 0 < robot.l1) (second : 0 < robot.l2) : Reachable robot x y ↔ |robot.cosTh2 x y| ≤ 1 := by
  rw [abs_le, cosTh2_elbow, TwoLink.elbow_mem_iff first second, Complex.norm_def, Complex.normSq_mk]
  rfl

theorem sine_unit (within : |c| ≤ 1) : c * c + Real.sqrt (1 - c * c) * Real.sqrt (1 - c * c) = 1 := by
  have square : c * c ≤ 1 := by
    rw [← abs_mul_abs_self c]
    exact mul_le_one₀ within (abs_nonneg c) within
  rw [Real.mul_self_sqrt (sub_nonneg.mpr square)]
  ring

theorem UpdatePosition_at (there : robot.endEffector robot.theta1 robot.theta2 = (x, y)) :
    robot.UpdatePosition = { robot with mx := x, my := y, pathPoints := robot.pathPoints ++ [(x, y)] } := by
  obtain ⟨rfl, rfl⟩ := Prod.mk.inj there
  rfl

theorem MoveTo_make_sol (reachable : Reachable robot x y) :
    robot.MoveTo x y =
      let sol := robot.make_sol x y (Real.sqrt (1 - robot.cosTh2 x y * robot.cosTh2 x y)) (robot.cosTh2 x y)
      ArmRobot.UpdatePosition { robot with theta1 := sol.theta1, theta2 := sol.theta2 } := by
  unfold ArmRobot.MoveTo
  rw [if_neg (not_lt.mpr reachable.2), if_neg (not_lt.mpr reachable.1)]
  rfl

theorem MoveTo_reachable (first : 0 < robot.l1) (second : 0 < robot.l2) (reachable : Reachable robot x y) :
    ∃ theta1 theta2, robot.endEffector theta1 theta2 = (x, y) ∧ robot.MoveTo x y =
      { robot with theta1, theta2, mx := x, my := y, pathPoints := robot.pathPoints ++ [(x, y)] } := by
  have unit := sine_unit ((reachable_iff first second).mp reachable)
  have reaches := make_sol_reaches first second unit rfl
  exact ⟨_, _, reaches, (MoveTo_make_sol reachable).trans (UpdatePosition_at reaches)⟩

theorem MoveTo_unreachable (unreachable : ¬Reachable robot x y) : robot.MoveTo x y = robot := by
  unfold ArmRobot.MoveTo
  dsimp only
  split_ifs with far near
  · rfl
  · rfl
  · exact absurd ⟨not_lt.mp near, not_lt.mp far⟩ unreachable

/-! ## Inverse kinematics -/

theorem inverseKinematics_within (within : |robot.cosTh2 x y| ≤ 1) :
    robot.inverseKinematics x y =
      let c := robot.cosTh2 x y
      let s := Real.sqrt (1 - c * c)
      if 2 * s > 1e-9 then [robot.make_sol x y s c, robot.make_sol x y (-s) c] else [robot.make_sol x y s c] := by
  obtain ⟨low, high⟩ := abs_le.mp within
  have square : robot.cosTh2 x y * robot.cosTh2 x y ≤ 1 := by
    rw [← abs_mul_abs_self]
    exact mul_le_one₀ within (abs_nonneg _) within
  have tolerated : ¬(robot.cosTh2 x y < -1 - 1e-12 ∨ robot.cosTh2 x y > 1 + 1e-12) := by
    rintro (below | above) <;> norm_num at * <;> linarith
  have apart : ∀ s : ℝ, 0 ≤ s → |s - -s| = 2 * s := by
    intro s positive
    rw [sub_neg_eq_add, ← two_mul, abs_of_nonneg (by positivity)]
  unfold ArmRobot.inverseKinematics
  dsimp only
  rw [if_neg tolerated, if_neg (not_lt.mpr high), if_neg (not_lt.mpr low), max_eq_right (sub_nonneg.mpr square),
    apart _ (Real.sqrt_nonneg _)]
  rfl

theorem inverseKinematics_beyond (beyond : 1 + 1e-12 < |robot.cosTh2 x y|) : robot.inverseKinematics x y = [] := by
  unfold ArmRobot.inverseKinematics
  apply if_pos
  rcases lt_abs.mp beyond with above | below
  · exact Or.inr above
  · left
    linarith

theorem inverseKinematics_reaches (first : 0 < robot.l1) (second : 0 < robot.l2) (reachable : Reachable robot x y)
    {sol : IKResult} (found : sol ∈ robot.inverseKinematics x y) :
    robot.endEffector sol.theta1 sol.theta2 = (x, y) := by
  have within := (reachable_iff first second).mp reachable
  have unit := sine_unit within
  have mirrored := unit
  rw [← neg_mul_neg (Real.sqrt _)] at mirrored
  rw [inverseKinematics_within within] at found
  dsimp only at found
  split_ifs at found with two
  · rcases List.mem_pair.mp found with rfl | rfl
    · exact make_sol_reaches first second unit rfl
    · exact make_sol_reaches first second mirrored rfl
  · obtain rfl := List.mem_singleton.mp found
    exact make_sol_reaches first second unit rfl

/-- Neither the tolerance of the comparison with 1 nor the one that takes two solutions for the same matters. -/
def Clear (robot : ArmRobot) (x y : ℝ) : Prop :=
  let c := robot.cosTh2 x y
  1 + 1e-12 < |c| ∨ |c| = 1 ∨ |c| < 1 ∧ 1e-9 < (2 : Nat) * Real.sqrt (1 - c * c)

/-- The arm puts its tool on a target other than its base with the joint angles of a solution, and with no others. -/
theorem inverseKinematics_iff (first : 0 < robot.l1) (second : 0 < robot.l2) (off : (x, y) ≠ (0, 0))
    (clear : Clear robot x y) :
    robot.endEffector th1 th2 = (x, y) ↔
      ∃ sol ∈ robot.inverseKinematics x y, (th1 : Real.Angle) = sol.theta1 ∧ (th2 : Real.Angle) = sol.theta2 := by
  have target : (⟨x, y⟩ : ℂ) ≠ 0 := by
    intro base
    obtain ⟨rfl, rfl⟩ := Complex.ext_iff.mp base
    exact off rfl
  rw [endEffector_eq_iff, TwoLink.tip_eq_iff target, TwoLink.norm_bent_iff first second, ← cosTh2_elbow]
  rcases clear with beyond | bound
  · rw [inverseKinematics_beyond beyond]
    constructor
    · rintro ⟨bend, -⟩
      have within := Real.abs_cos_le_one th2
      rw [bend] at within
      norm_num at beyond
      linarith
    · rintro ⟨sol, none, -⟩
      cases none
  · have within : |robot.cosTh2 x y| ≤ 1 := by
      rcases bound with edge | ⟨inner, -⟩
      · exact edge.le
      · exact inner.le
    have unit := sine_unit within
    have mirrored := unit
    rw [← neg_mul_neg (Real.sqrt _)] at mirrored
    rw [TwoLink.cos_eq_iff_arg unit, inverseKinematics_within within]
    dsimp only
    split_ifs with two
    · simp only [List.mem_pair, exists_eq_or_imp, exists_eq_left, make_sol_angles unit, make_sol_angles mirrored]
      exact or_and_right
    · have straight : Real.sqrt (1 - robot.cosTh2 x y * robot.cosTh2 x y) = 0 := by
        rcases bound with edge | ⟨-, apart⟩
        · rw [← abs_mul_abs_self, edge, mul_one, sub_self, Real.sqrt_zero]
        · rw [Nat.cast_ofNat] at apart
          exact absurd apart two
      simp only [List.mem_singleton, exists_eq_left, make_sol_angles unit]
      rw [straight, neg_zero, or_self]

theorem inverseKinematics_iff_corner : ∃ sol ∈ (ArmRobot.new (1 / 2) (1 / 2) []).inverseKinematics (1 / 2) (1 / 2),
    ((0 : ℝ) : Real.Angle) = sol.theta1 ∧ ((Real.pi / 2 : ℝ) : Real.Angle) = sol.theta2 := by
  have cosine : (ArmRobot.new (1 / 2) (1 / 2) []).cosTh2 (1 / 2) (1 / 2) = 0 := by
    norm_num [ArmRobot.cosTh2, ArmRobot.new, ArmRobot.UpdatePosition]
  have clear : Clear (ArmRobot.new (1 / 2) (1 / 2) []) (1 / 2) (1 / 2) := by
    unfold Clear
    rw [cosine]
    norm_num
  have half : (0 : ℝ) < 1 / 2 := by norm_num
  refine (inverseKinematics_iff half half ?_ clear).mp ?_
  · intro base
    norm_num at base
  · simp [ArmRobot.endEffector, ArmRobot.new, ArmRobot.UpdatePosition]

/-! ## Drawing -/

end KnowledgeAcquisition.Proof.Robot
