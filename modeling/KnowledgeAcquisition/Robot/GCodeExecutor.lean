import KnowledgeAcquisition.Robot.ArmRobot
import Mathlib

/-!
# Programs of the arm

`MiniProjects/Robot2DOF/gcode/GCodeExecutor.cpp`, without pauses and texts. The user may stop a program: `running` is
what the flag of the application shows at each look. Which overload of `abs` the arcs call depends on the headers.
-/

namespace KnowledgeAcquisition.Robot
open Library

noncomputable section

inductive GCode
  | G0
  | G1
  | G2
  | G3
  | G4
  | G28
  | G90
  | G91
  | G92
  | unknown
  deriving DecidableEq

structure GCodeCommand where
  type : GCode
  x : ℝ := 0
  y : ℝ := 0
  i : ℝ := 0
  j : ℝ := 0
  feedrate : ℝ := (100 : Nat)
  hasX : Bool := true
  hasY : Bool := true

def HOME_X : ℝ := -(100 : Nat)
def HOME_Y : ℝ := 0

/-- The arm, the modal state of the executor, and how often the flag has been looked at. -/
structure Machine where
  robot : ArmRobot
  absoluteMode : Bool
  looks : Nat

variable (running : Nat → Bool)

def moveAlong (point : Nat → ℝ × ℝ) : Nat → Nat → Machine → Machine
  | _, 0, m => m
  | i, left + 1, m =>
      if running m.looks then
        moveAlong point (i + 1) left
          { m with robot := m.robot.MoveTo (point i).1 (point i).2, looks := m.looks + 1 }
      else { m with looks := m.looks + 1 }

def stepCount (length feedrate dt : ℝ) : Nat := max 1 ⌊length / (feedrate * dt)⌋₊

def moveLinear (targetX targetY feedrate dt : ℝ) (m : Machine) : Machine :=
  let x0 := m.robot.mx
  let y0 := m.robot.my
  let targetX := targetX / hundred
  let targetY := targetY / hundred
  let feedrate := feedrate / hundred
  let dx := targetX - x0
  let dy := targetY - y0
  let dist := Real.sqrt (dx * dx + dy * dy)
  if dist < 1e-8 then m
  else
    let steps := stepCount dist feedrate dt
    moveAlong running (fun i =>
      let ratio : ℝ := i / steps
      (x0 + ratio * dx, y0 + ratio * dy)) 1 steps m

def moveArc (last : ℝ → ℝ → ℝ) (arcLength : ℝ → ℝ → ℝ) (cx cy tx ty feedrate dt : ℝ) (m : Machine) : Machine :=
  let x0 := m.robot.mx
  let y0 := m.robot.my
  let cx := cx / hundred
  let cy := cy / hundred
  let tx := tx / hundred
  let ty := ty / hundred
  let feedrate := feedrate / hundred
  let r := Real.sqrt ((x0 - cx) * (x0 - cx) + (y0 - cy) * (y0 - cy))
  let startAngle := atan2 (y0 - cy) (x0 - cx)
  let endAngle := last startAngle (atan2 (ty - cy) (tx - cx))
  let steps := stepCount (arcLength r (endAngle - startAngle)) feedrate dt
  moveAlong running (fun i =>
    let theta := startAngle + (endAngle - startAngle) * (i / steps)
    (cx + r * Real.cos theta, cy + r * Real.sin theta)) 1 steps m

variable (abs : ℝ → ℝ)

def moveArcCW : (cx cy tx ty feedrate dt : ℝ) → Machine → Machine :=
  moveArc running
    (fun startAngle endAngle => if abs (endAngle - startAngle) ≤ 1e-8 then endAngle - (2 : Nat) * Real.pi else endAngle)
    (fun r angle => r * |angle|)

def moveArcCCW : (cx cy tx ty feedrate dt : ℝ) → Machine → Machine :=
  moveArc running
    (fun startAngle endAngle => if abs (endAngle - startAngle) < 1e-8 then endAngle + (2 : Nat) * Real.pi else endAngle)
    (fun r angle => r * angle)

def dwell : Nat → Machine → Machine
  | 0, m => m
  | left + 1, m =>
      if running m.looks then dwell left { m with looks := m.looks + 1 } else { m with looks := m.looks + 1 }

structure Travel where
  robot : ArmRobot
  cx : ℝ
  cy : ℝ
  motion : Motion ℝ

def travelStep (vMax dt dist dirX dirY : ℝ) (travel : Travel) : Option (Travel ⊕ Travel) :=
  if travel.motion.traveled < dist then
    let remain := dist - travel.motion.traveled
    let v := speed vMax dt remain travel.motion.v
    let step := v * dt
    let step := if step > remain then remain else step
    let cx := travel.cx + dirX * step
    let cy := travel.cy + dirY * step
    let robot := match travel.robot.inverseKinematics cx cy with
      | [] => travel.robot
      | sol :: _ => { travel.robot with theta1 := sol.theta1, theta2 := sol.theta2 }
    some (.inl
      { robot := robot.UpdatePosition, cx, cy, motion := { v, traveled := travel.motion.traveled + step } })
  else some (.inr travel)

def moveLinearSmooth (fuel : Nat) (tx ty feedrate dt : ℝ) (m : Machine) : Option Machine :=
  let cx := m.robot.mx
  let cy := m.robot.my
  let tx := tx / hundred
  let ty := ty / hundred
  let dx := tx - cx
  let dy := ty - cy
  let dist := Real.sqrt (dx * dx + dy * dy)
  if dist < 0.001 then some m
  else
    let dirX := dx / dist
    let dirY := dy / dist
    let travel := { robot := m.robot, cx, cy, motion := { v := 0, traveled := 0 } }
    match Loop.run (travelStep (topSpeed feedrate) dt dist dirX dirY) fuel travel with
    | none => none
    | some travel => some { m with robot := travel.robot.MoveTo tx ty }

/-! ## Programs -/

def perform (fuel : Nat) (dt : ℝ) (cmd : GCodeCommand) (m : Machine) : Option Machine :=
  let tx := if m.absoluteMode then cmd.x + m.robot.offsetX * hundred else cmd.x + m.robot.mx * hundred
  let ty := if m.absoluteMode then cmd.y + m.robot.offsetY * hundred else cmd.y + m.robot.my * hundred
  let cx := m.robot.mx * hundred + cmd.i
  let cy := m.robot.my * hundred + cmd.j
  match cmd.type with
  | .G0 | .G1 => moveLinearSmooth fuel tx ty cmd.feedrate dt m
  | .G2 => some (moveArcCW running abs cx cy tx ty cmd.feedrate dt m)
  | .G3 => some (moveArcCCW running abs cx cy tx ty cmd.feedrate dt m)
  | .G4 => some (dwell running 100 m)
  | .G28 => some (moveLinear running HOME_X HOME_Y (if cmd.feedrate > 0 then cmd.feedrate else (10 : Nat)) dt m)
  | .G90 => some { m with absoluteMode := true }
  | .G91 => some { m with absoluteMode := false }
  | .G92 =>
      let wx := if cmd.hasX then cmd.x else m.robot.GetCurrentX_Work
      let wy := if cmd.hasY then cmd.y else m.robot.GetCurrentY_Work
      some { m with robot := m.robot.SetWorkOffset wx wy }
  | .unknown => some m

def ExecuteGCodeStep (fuel : Nat) (dt : ℝ) : List GCodeCommand → Machine → Option Machine
  | [], m => some m
  | cmd :: cmds, m =>
      if running m.looks then
        match perform running abs fuel dt cmd { m with looks := m.looks + 1 } with
        | none => none
        | some m => if cmd.type = .unknown then some m else ExecuteGCodeStep fuel dt cmds m
      else some { m with looks := m.looks + 1 }

end

end KnowledgeAcquisition.Robot
