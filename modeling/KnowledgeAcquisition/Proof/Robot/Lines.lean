import KnowledgeAcquisition.Proof.Robot.Plane

/-!
# Straight lines

As long as the line from the tool to its target is in reach, a smooth motion draws that line, from its start to its end
and never back.
-/

namespace KnowledgeAcquisition.Proof.Robot
open KnowledgeAcquisition.Robot Library

noncomputable section

variable {m next : Machine} {travel after : Travel} {vMax dt dist dirX dirY : ℝ}

theorem speed_forward (tick : 0 < dt) (positive : 0 < vMax) {v : ℝ} (forward : 0 ≤ v) (remain : ℝ) :
    0 ≤ speed vMax dt remain v := by
  have gain : (0 : ℝ) < accel * dt := gain_pos tick
  have risen : 0 ≤ accelerate vMax dt v := by
    unfold accelerate
    dsimp only
    split_ifs
    · exact positive.le
    · linarith
  unfold speed
  dsimp only
  split_ifs
  · unfold brake
    dsimp only
    split_ifs with below
    · exact le_rfl
    · exact not_lt.mp below
  · exact risen

def stride (vMax dt dist : ℝ) (motion : Motion ℝ) : ℝ :=
  min (speed vMax dt (dist - motion.traveled) motion.v * dt) (dist - motion.traveled)

theorem travelStep_again (again : travelStep vMax dt dist dirX dirY travel = some (.inl after)) :
    travel.motion.traveled < dist ∧
      after.cx = travel.cx + dirX * stride vMax dt dist travel.motion ∧
      after.cy = travel.cy + dirY * stride vMax dt dist travel.motion ∧
      after.motion.v = speed vMax dt (dist - travel.motion.traveled) travel.motion.v ∧
      after.motion.traveled = travel.motion.traveled + stride vMax dt dist travel.motion ∧
      ∃ theta1 theta2, after.robot = ArmRobot.UpdatePosition { travel.robot with theta1, theta2 } ∧
        ∀ sol ∈ (travel.robot.inverseKinematics after.cx after.cy).head?, theta1 = sol.theta1 ∧ theta2 = sol.theta2 := by
  have capped : ∀ step remain : ℝ, (if step > remain then remain else step) = min step remain := by
    intro step remain
    split_ifs with beyond
    · exact (min_eq_right beyond.le).symm
    · exact (min_eq_left (not_lt.mp beyond)).symm
  unfold travelStep at again
  split_ifs at again with under
  · simp only [capped] at again
    obtain rfl := Sum.inl.inj (Option.some.inj again)
    refine ⟨under, rfl, rfl, rfl, rfl, ?_⟩
    dsimp only [stride]
    split
    · case h_1 none =>
        refine ⟨travel.robot.theta1, travel.robot.theta2, rfl, ?_⟩
        rw [none]
        intro sol found
        cases found
    · case h_2 sol rest some =>
        refine ⟨sol.theta1, sol.theta2, rfl, ?_⟩
        rw [some]
        intro sol' found
        cases found
        exact ⟨rfl, rfl⟩
  · cases again

theorem travelStep_draws (first : 0 < travel.robot.l1) (second : 0 < travel.robot.l2)
    (again : travelStep vMax dt dist dirX dirY travel = some (.inl after))
    (reachable : Reachable travel.robot after.cx after.cy) :
    after.robot.pathPoints = travel.robot.pathPoints ++ [(after.cx, after.cy)] := by
  obtain ⟨-, -, -, -, -, theta1, theta2, moved, solved⟩ := travelStep_again again
  have within := (reachable_iff first second).mp reachable
  have found : ∃ sol rest, travel.robot.inverseKinematics after.cx after.cy = sol :: rest := by
    rw [inverseKinematics_within within]
    dsimp only
    split_ifs
    · exact ⟨_, _, rfl⟩
    · exact ⟨_, _, rfl⟩
  obtain ⟨sol, rest, sols⟩ := found
  obtain ⟨rfl, rfl⟩ := solved sol (by rw [sols]; rfl)
  have there := inverseKinematics_reaches first second reachable (sols ▸ List.mem_cons_self)
  rw [moved, UpdatePosition_at there]

/-! ## Whole motions -/

def along (robot : ArmRobot) (dirX dirY s : ℝ) : ℝ × ℝ := (robot.mx + dirX * s, robot.my + dirY * s)

structure Drawing (robot : ArmRobot) (dist dirX dirY : ℝ) (travel : Travel) : Prop where
  frame : Frame robot travel.robot
  forward : 0 ≤ travel.motion.v
  begun : 0 ≤ travel.motion.traveled
  bounded : travel.motion.traveled ≤ dist
  place : (travel.cx, travel.cy) = along robot dirX dirY travel.motion.traveled
  drawn : ∃ places : List ℝ, places.Pairwise (· ≤ ·) ∧ (∀ s ∈ places, 0 ≤ s ∧ s ≤ travel.motion.traveled) ∧
    travel.robot.pathPoints = robot.pathPoints ++ places.map (along robot dirX dirY)

theorem travelStep_drawing {robot : ArmRobot} (first : 0 < robot.l1) (second : 0 < robot.l2) (tick : 0 < dt)
    (positive : 0 < vMax)
    (within : ∀ s, 0 ≤ s → s ≤ dist → Reachable robot (along robot dirX dirY s).1 (along robot dirX dirY s).2)
    (drawing : Drawing robot dist dirX dirY travel)
    (again : travelStep vMax dt dist dirX dirY travel = some (.inl after)) : Drawing robot dist dirX dirY after := by
  obtain ⟨under, onX, onY, speeds, travels, -⟩ := travelStep_again again
  obtain ⟨places, ordered, inside, path⟩ := drawing.drawn
  have forward := speed_forward tick positive drawing.forward (dist - travel.motion.traveled)
  have stepped : 0 ≤ stride vMax dt dist travel.motion :=
    le_min (mul_nonneg forward tick.le) (sub_nonneg.mpr drawing.bounded)
  have left : stride vMax dt dist travel.motion ≤ dist - travel.motion.traveled := min_le_right _ _
  have begun : 0 ≤ after.motion.traveled := by
    rw [travels]
    exact add_nonneg drawing.begun stepped
  have bounded : after.motion.traveled ≤ dist := by
    rw [travels]
    linarith
  have place : (after.cx, after.cy) = along robot dirX dirY after.motion.traveled := by
    obtain ⟨hereX, hereY⟩ := Prod.mk.inj drawing.place
    rw [onX, onY, hereX, hereY, travels, along, Prod.mk.injEq]
    constructor <;> ring
  have frame := drawing.frame
  have reachable : Reachable travel.robot after.cx after.cy := by
    rw [Reachable.of_links frame.first frame.second]
    have here := within after.motion.traveled begun bounded
    rwa [← place] at here
  refine ⟨frame.trans (travelStep_frame again), speeds ▸ forward, begun, bounded, place,
    places ++ [after.motion.traveled], ?_, ?_, ?_⟩
  · refine List.pairwise_append.mpr ⟨ordered, List.pairwise_singleton _ _, ?_⟩
    intro s member last final
    obtain rfl := List.mem_singleton.mp final
    rw [travels]
    linarith [(inside s member).2]
  · intro s member
    rcases List.mem_append.mp member with early | last
    · refine ⟨(inside s early).1, ?_⟩
      rw [travels]
      linarith [(inside s early).2]
    · obtain rfl := List.mem_singleton.mp last
      exact ⟨begun, le_rfl⟩
  · rw [travelStep_draws (frame.first.symm ▸ first) (frame.second.symm ▸ second) again reachable, path, place,
      List.map_append, List.append_assoc]
    rfl

variable {fuel : Nat} {tx ty feedrate : ℝ}

/-- The way to the target, from 0 at the tool to 1 at the target. -/
def toward (robot : ArmRobot) (tx ty ratio : ℝ) : ℝ × ℝ :=
  (robot.mx + ratio * (tx / hundred - robot.mx), robot.my + ratio * (ty / hundred - robot.my))

theorem along_toward (robot : ArmRobot) (tx ty dist s : ℝ) :
    along robot ((tx / hundred - robot.mx) / dist) ((ty / hundred - robot.my) / dist) s = toward robot tx ty (s / dist) := by
  rw [along, toward, Prod.mk.injEq]
  constructor <;> ring

theorem moveLinearSmooth_cases (far : ¬‖(⟨tx / hundred, ty / hundred⟩ - ⟨m.robot.mx, m.robot.my⟩ : ℂ)‖ < 0.001)
    (ran : moveLinearSmooth fuel tx ty feedrate dt m = some next) :
    ∃ last, Loop.run (travelStep (topSpeed feedrate) dt
        ‖(⟨tx / hundred, ty / hundred⟩ - ⟨m.robot.mx, m.robot.my⟩ : ℂ)‖
        ((tx / hundred - m.robot.mx) / ‖(⟨tx / hundred, ty / hundred⟩ - ⟨m.robot.mx, m.robot.my⟩ : ℂ)‖)
        ((ty / hundred - m.robot.my) / ‖(⟨tx / hundred, ty / hundred⟩ - ⟨m.robot.mx, m.robot.my⟩ : ℂ)‖)) fuel
        { robot := m.robot, cx := m.robot.mx, cy := m.robot.my, motion := { v := 0, traveled := 0 } } = some last ∧
      next = { m with robot := last.robot.MoveTo (tx / hundred) (ty / hundred) } := by
  rw [Complex.norm_def, Complex.normSq_apply, Complex.sub_re, Complex.sub_im] at far ⊢
  unfold moveLinearSmooth at ran
  dsimp only at ran far ⊢
  rw [if_neg far] at ran
  split at ran
  · cases ran
  · case h_2 last looped => exact ⟨last, looped, (Option.some.inj ran).symm⟩

/-- Where the path of a smooth motion goes: along the line, always onward, and to the target. -/
theorem moveLinearSmooth_straight (tick : 0 < dt) (first : 0 < m.robot.l1) (second : 0 < m.robot.l2)
    (far : ¬‖(⟨tx / hundred, ty / hundred⟩ - ⟨m.robot.mx, m.robot.my⟩ : ℂ)‖ < 0.001)
    (within : ∀ ratio, 0 ≤ ratio → ratio ≤ 1 →
      Reachable m.robot (toward m.robot tx ty ratio).1 (toward m.robot tx ty ratio).2)
    (ran : moveLinearSmooth fuel tx ty feedrate dt m = some next) :
    ∃ ratios : List ℝ, ratios.Pairwise (· ≤ ·) ∧ (∀ ratio ∈ ratios, 0 ≤ ratio ∧ ratio ≤ 1) ∧
      ratios.getLast? = some 1 ∧
      next.robot.pathPoints = m.robot.pathPoints ++ ratios.map (toward m.robot tx ty) := by
  obtain ⟨last, looped, rfl⟩ := moveLinearSmooth_cases far ran
  have moves : 0 < ‖(⟨tx / hundred, ty / hundred⟩ - ⟨m.robot.mx, m.robot.my⟩ : ℂ)‖ := by
    refine lt_of_lt_of_le ?_ (not_lt.mp far)
    norm_num
  generalize ‖(⟨tx / hundred, ty / hundred⟩ - ⟨m.robot.mx, m.robot.my⟩ : ℂ)‖ = dist at looped far moves
  have positive : 0 < topSpeed feedrate := by
    have profile := Loop.run_map Travel.motion (travelStep_motion (topSpeed feedrate) dt dist
      ((tx / hundred - m.robot.mx) / dist) ((ty / hundred - m.robot.my) / dist)) fuel
      { robot := m.robot, cx := m.robot.mx, cy := m.robot.my, motion := { v := 0, traveled := 0 } }
    rw [looped] at profile
    exact ((moveSmooth_ends_iff tick moves).1.mp ⟨fuel, last.motion, profile, smooth_arrives moves.le profile⟩).1
  have reached : ∀ s, 0 ≤ s → s ≤ dist → Reachable m.robot
      (along m.robot ((tx / hundred - m.robot.mx) / dist) ((ty / hundred - m.robot.my) / dist) s).1
      (along m.robot ((tx / hundred - m.robot.mx) / dist) ((ty / hundred - m.robot.my) / dist) s).2 := by
    intro s low high
    rw [along_toward]
    exact within (s / dist) (div_nonneg low moves.le) ((div_le_one moves).mpr high)
  have drawing : Drawing m.robot dist ((tx / hundred - m.robot.mx) / dist) ((ty / hundred - m.robot.my) / dist) last := by
    refine Loop.run_keeps (fun travel after drawing again =>
      travelStep_drawing first second tick positive reached drawing again) ?_ ?_ looped
    · intro travel left drawing leaves
      unfold travelStep at leaves
      split_ifs at leaves
      · cases leaves
      · exact Sum.inr.inj (Option.some.inj leaves) ▸ drawing
    · refine ⟨⟨rfl, rfl, rfl, rfl⟩, le_rfl, le_rfl, moves.le, ?_, [], List.Pairwise.nil, ?_, ?_⟩
      · simp [along]
      · intro s none
        cases none
      · exact (List.append_nil _).symm
  obtain ⟨places, ordered, inside, path⟩ := drawing.drawn
  have bounded : ∀ s ∈ places, 0 ≤ s / dist ∧ s / dist ≤ 1 := fun s member =>
    ⟨div_nonneg (inside s member).1 moves.le, (div_le_one moves).mpr ((inside s member).2.trans drawing.bounded)⟩
  have target : toward m.robot tx ty 1 = (tx / hundred, ty / hundred) := by
    rw [toward, one_mul, one_mul, add_sub_cancel, add_sub_cancel]
  have reachable : Reachable last.robot (tx / hundred) (ty / hundred) := by
    have there := within 1 zero_le_one le_rfl
    rw [target] at there
    exact (Reachable.of_links drawing.frame.first drawing.frame.second).mpr there
  obtain ⟨theta1, theta2, -, moved⟩ :=
    MoveTo_reachable (drawing.frame.first.symm ▸ first) (drawing.frame.second.symm ▸ second) reachable
  refine ⟨places.map (· / dist) ++ [1], ?_, ?_, ?_, ?_⟩
  · refine List.pairwise_append.mpr ⟨?_, List.pairwise_singleton _ _, ?_⟩
    · exact ordered.map (· / dist) fun _ _ earlier => div_le_div_of_nonneg_right earlier moves.le
    · intro ratio member final last
      obtain ⟨s, drawn, rfl⟩ := List.mem_map.mp member
      obtain rfl := List.mem_singleton.mp last
      exact (bounded s drawn).2
  · intro ratio member
    rcases List.mem_append.mp member with early | last
    · obtain ⟨s, drawn, rfl⟩ := List.mem_map.mp early
      exact bounded s drawn
    · obtain rfl := List.mem_singleton.mp last
      exact ⟨zero_le_one, le_rfl⟩
  · exact List.getLast?_concat
  · rw [moved]
    simp only [path, List.map_append, List.map_map, List.map_cons, List.map_nil, target, List.append_assoc]
    congr 2
    exact List.map_congr_left fun s _ => along_toward m.robot tx ty dist s

theorem toward_reachable {robot : ArmRobot} (equal : robot.l1 = robot.l2)
    (start : Reachable robot robot.mx robot.my) (target : Reachable robot (tx / hundred) (ty / hundred)) {ratio : ℝ}
    (low : 0 ≤ ratio) (high : ratio ≤ 1) :
    Reachable robot (toward robot tx ty ratio).1 (toward robot tx ty ratio).2 := by
  have disk : ∀ x y, Reachable robot x y ↔ (⟨x, y⟩ : ℂ) ∈ Metric.closedBall (0 : ℂ) (robot.l1 + robot.l2) := by
    intro x y
    rw [← inReach_iff, Plane.InReach, equal, sub_self, abs_zero, mem_closedBall_zero_iff]
    exact and_iff_right (norm_nonneg _)
  rw [disk] at start target ⊢
  have between := (convex_closedBall (0 : ℂ) (robot.l1 + robot.l2)) start target (sub_nonneg.mpr high) low
    (sub_add_cancel 1 ratio)
  convert between using 1
  apply Complex.ext <;> simp [toward] <;> ring

theorem moveLinearSmooth_straight_tenth : ∃ fuel next, ∃ ratios : List ℝ,
    moveLinearSmooth fuel 90 0 50 (7 / 100)
      { robot := ArmRobot.new (1 / 2) (1 / 2) [], absoluteMode := true, looks := 0 } = some next ∧
    ratios.Pairwise (· ≤ ·) ∧ (∀ ratio ∈ ratios, 0 ≤ ratio ∧ ratio ≤ 1) ∧ ratios.getLast? = some 1 ∧
    next.robot.pathPoints = (ArmRobot.new (1 / 2) (1 / 2) []).pathPoints ++
      ratios.map (toward (ArmRobot.new (1 / 2) (1 / 2) []) 90 0) := by
  have tick : (0 : ℝ) < 7 / 100 := by norm_num
  have half : (0 : ℝ) < 1 / 2 := by norm_num
  have start : (ArmRobot.new (1 / 2) (1 / 2) []).mx = 1 ∧ (ArmRobot.new (1 / 2) (1 / 2) []).my = 0 := by
    norm_num [ArmRobot.new, ArmRobot.UpdatePosition]
  have dist : ‖(⟨90 / hundred, 0 / hundred⟩ - ⟨(ArmRobot.new (1 / 2) (1 / 2) []).mx,
      (ArmRobot.new (1 / 2) (1 / 2) []).my⟩ : ℂ)‖ = 1 / 10 := by
    rw [start.1, start.2, Complex.norm_def, Complex.normSq_apply, Real.sqrt_eq_iff_mul_self_eq] <;> norm_num [hundred_eq]
  have far : ¬‖(⟨90 / hundred, 0 / hundred⟩ - ⟨(ArmRobot.new (1 / 2) (1 / 2) []).mx,
      (ArmRobot.new (1 / 2) (1 / 2) []).my⟩ : ℂ)‖ < 0.001 := by
    rw [dist]
    norm_num
  have here : Reachable (ArmRobot.new (1 / 2) (1 / 2) []) (ArmRobot.new (1 / 2) (1 / 2) []).mx
      (ArmRobot.new (1 / 2) (1 / 2) []).my := endEffector_reachable half half rfl
  have there : Reachable (ArmRobot.new (1 / 2) (1 / 2) []) (90 / hundred) (0 / hundred) := by
    rw [reachable_iff half half]
    norm_num [ArmRobot.cosTh2, ArmRobot.new, ArmRobot.UpdatePosition, abs_le, hundred_eq]
  obtain ⟨fuel, next, -, ran⟩ := moveLinearSmooth_arrives
    (m := { robot := ArmRobot.new (1 / 2) (1 / 2) [], absoluteMode := true, looks := 0 }) tick half half rfl far
    (dist ▸ ends_tenth) (inReach_iff.mpr there)
  obtain ⟨ratios, drawn⟩ := moveLinearSmooth_straight tick half half far
    (fun ratio low high => toward_reachable rfl here there low high) (ran fuel le_rfl)
  exact ⟨fuel, next, ratios, ran fuel le_rfl, drawn⟩

end

end KnowledgeAcquisition.Proof.Robot
