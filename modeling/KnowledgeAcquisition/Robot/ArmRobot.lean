import KnowledgeAcquisition.Robot.Motion
import Mathlib

/-!
# The arm

The class of `MiniProjects/Robot2DOF/robot/arm_robot.cpp` and the matrices of `math_util.h`, over exact numbers. The
path that the window draws, a global of the application, is a field here.
-/

namespace KnowledgeAcquisition.Robot

noncomputable section

/-- The program counts in hundredths of the unit of the links. -/
def hundred : ℝ := (100 : Nat)

def atan2 (y x : ℝ) : ℝ := Complex.arg ⟨x, y⟩

structure IKResult where
  theta1 : ℝ
  theta2 : ℝ

structure ArmRobot where
  l1 : ℝ
  l2 : ℝ
  theta1 : ℝ
  theta2 : ℝ
  mx : ℝ
  my : ℝ
  offsetX : ℝ
  offsetY : ℝ
  pathPoints : List (ℝ × ℝ)

namespace ArmRobot

variable (robot : ArmRobot)

def UpdatePosition : ArmRobot :=
  let mx := robot.l1 * Real.cos robot.theta1 + robot.l2 * Real.cos (robot.theta1 + robot.theta2)
  let my := robot.l1 * Real.sin robot.theta1 + robot.l2 * Real.sin (robot.theta1 + robot.theta2)
  { robot with mx, my, pathPoints := robot.pathPoints ++ [(mx, my)] }

def new (l1 l2 : ℝ) (pathPoints : List (ℝ × ℝ)) : ArmRobot :=
  UpdatePosition { l1, l2, theta1 := 0, theta2 := 0, mx := 0, my := 0, offsetX := 0, offsetY := 0, pathPoints }

def endEffector (th1 th2 : ℝ) : ℝ × ℝ :=
  (robot.l1 * Real.cos th1 + robot.l2 * Real.cos (th1 + th2), robot.l1 * Real.sin th1 + robot.l2 * Real.sin (th1 + th2))

def make_sol (x y s2 c2 : ℝ) : IKResult :=
  let th2 := atan2 s2 c2
  let k1 := robot.l1 + robot.l2 * c2
  let k2 := robot.l2 * s2
  let th1 := atan2 y x - atan2 k2 k1
  { theta1 := th1, theta2 := th2 }

def cosTh2 (x y : ℝ) : ℝ :=
  let r2 := x * x + y * y
  (r2 - robot.l1 * robot.l1 - robot.l2 * robot.l2) / ((2 : Nat) * robot.l1 * robot.l2)

def inverseKinematics (x y : ℝ) : List IKResult :=
  let cos_th2 := robot.cosTh2 x y
  if cos_th2 < -1 - 1e-12 ∨ cos_th2 > 1 + 1e-12 then []
  else
    let cos_th2 := if cos_th2 > 1 then 1 else cos_th2
    let cos_th2 := if cos_th2 < -1 then -1 else cos_th2
    let sin_th2_pos := Real.sqrt (max 0 (1 - cos_th2 * cos_th2))
    let sin_th2_neg := -sin_th2_pos
    let sols := [robot.make_sol x y sin_th2_pos cos_th2]
    if |sin_th2_pos - sin_th2_neg| > 1e-9 then sols ++ [robot.make_sol x y sin_th2_neg cos_th2] else sols

def GetCurrentX_Work : ℝ := robot.mx - robot.offsetX
def GetCurrentY_Work : ℝ := robot.my - robot.offsetY

def MoveTo (x y : ℝ) : ArmRobot :=
  let d := Real.sqrt (x * x + y * y)
  if d > robot.l1 + robot.l2 then robot
  else if d < |robot.l1 - robot.l2| then robot
  else
    let cos_t2 := (x * x + y * y - robot.l1 * robot.l1 - robot.l2 * robot.l2) / ((2 : Nat) * robot.l1 * robot.l2)
    let sin_t2 := Real.sqrt (1 - cos_t2 * cos_t2)
    UpdatePosition
      { robot with
        theta1 := atan2 y x - atan2 (robot.l2 * sin_t2) (robot.l1 + robot.l2 * cos_t2)
        theta2 := atan2 sin_t2 cos_t2 }

def SetWorkOffset (wx wy : ℝ) : ArmRobot :=
  { robot with offsetX := robot.mx - wx / hundred, offsetY := robot.my - wy / hundred }

end ArmRobot

namespace Mat4

end Mat4

end

end KnowledgeAcquisition.Robot
