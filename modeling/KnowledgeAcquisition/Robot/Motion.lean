import KnowledgeAcquisition.Library.Loop
import Mathlib

/-!
# Smooth motion

The speed profile of `moveLinearSmooth` in `MiniProjects/Robot2DOF/gcode/GCodeExecutor.cpp`, over exact numbers. Where
the arm is on its line depends on `traveled` alone.
-/

namespace KnowledgeAcquisition.Robot
open Library

variable {K : Type*} [Field K] [LinearOrder K]

def accel : K := (400 : Nat)
def decel : K := (400 : Nat)

structure Motion (K : Type*) where
  v : K
  traveled : K
  deriving DecidableEq, Repr

def accelerate (vMax dt v : K) : K :=
  let v := v + accel * dt
  if v > vMax then vMax else v

def brake (dt v : K) : K :=
  let v := v - decel * dt
  if v < 0 then 0 else v

def speed (vMax dt remain v : K) : K :=
  let v := accelerate vMax dt v
  let stopDist := v * v / ((2 : Nat) * decel)
  if stopDist ≥ remain then brake dt v else v

/-- An iteration of the loop, without the solution of the arm and the pause. -/
def smoothStep (vMax dt dist : K) (motion : Motion K) : Option (Motion K ⊕ Motion K) :=
  if motion.traveled < dist then
    let remain := dist - motion.traveled
    let v := speed vMax dt remain motion.v
    let step := v * dt
    let step := if step > remain then remain else step
    some (.inl { v, traveled := motion.traveled + step })
  else some (.inr motion)

def topSpeed (feedrate : K) : K := feedrate / (160 : Nat)

def moveSmooth (fuel : Nat) (feedrate dt dist : K) : Option (Motion K) :=
  Loop.run (smoothStep (topSpeed feedrate) dt dist) fuel { v := 0, traveled := 0 }

end KnowledgeAcquisition.Robot
