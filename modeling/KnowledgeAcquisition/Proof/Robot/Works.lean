import KnowledgeAcquisition.Proof.Robot.ArmRobot
import KnowledgeAcquisition.Robot.GCodeExecutor

/-!
# What a program leaves alone

Whenever the user stops a program, the joint angles belong to the position of the tool, and the path has grown by points
in reach.
-/

namespace KnowledgeAcquisition.Proof.Robot
open KnowledgeAcquisition.Robot Library

/-- The joint angles belong to the position of the tool. -/
def Steady (robot : ArmRobot) : Prop := robot.endEffector robot.theta1 robot.theta2 = (robot.mx, robot.my)

structure Works (robot next : ArmRobot) : Prop where
  first : next.l1 = robot.l1
  second : next.l2 = robot.l2
  steady : Steady robot → Steady next
  path : ∃ drawn, next.pathPoints = robot.pathPoints ++ drawn ∧ ∀ p ∈ drawn, Reachable robot p.1 p.2

theorem Reachable.of_links {robot next : ArmRobot} (first : next.l1 = robot.l1) (second : next.l2 = robot.l2) {x y : ℝ} :
    Reachable next x y ↔ Reachable robot x y := by
  rw [Reachable, Reachable, first, second]

theorem Works.refl (robot : ArmRobot) : Works robot robot :=
  ⟨rfl, rfl, id, [], (List.append_nil _).symm, fun _ none => absurd none List.not_mem_nil⟩

theorem Works.trans {robot next last : ArmRobot} (one : Works robot next) (two : Works next last) : Works robot last := by
  obtain ⟨drawn, grown, inside⟩ := one.path
  obtain ⟨more, grown', inside'⟩ := two.path
  refine ⟨two.first.trans one.first, two.second.trans one.second, two.steady ∘ one.steady, drawn ++ more, ?_, ?_⟩
  · rw [grown', grown, List.append_assoc]
  · intro p member
    rcases List.mem_append.mp member with early | late
    · exact inside p early
    · exact (Reachable.of_links one.first one.second).mp (inside' p late)

theorem endEffector_reachable {robot : ArmRobot} (first : 0 < robot.l1) (second : 0 < robot.l2) {x y th1 th2 : ℝ}
    (there : robot.endEffector th1 th2 = (x, y)) : Reachable robot x y := by
  have tip := endEffector_eq_iff.mp there
  have bend := (TwoLink.norm_bent_iff first second).mp (TwoLink.norm_tip.symm.trans (congrArg norm tip))
  rw [reachable_iff first second, cosTh2_elbow, ← bend]
  exact Real.abs_cos_le_one th2

variable {running : Nat → Bool} {m next : Machine}

theorem dwell_works (left : Nat) : (dwell running left m).robot = m.robot := by
  induction left generalizing m with
  | zero => rfl
  | succ left ih =>
      unfold dwell
      split_ifs
      · exact ih
      · rfl

variable {abs : ℝ → ℝ} {fuel : Nat} {dt : ℝ} {cmd : GCodeCommand} {cmds : List GCodeCommand}

end KnowledgeAcquisition.Proof.Robot
