import KnowledgeAcquisition.Proof.Robot.Motion
import KnowledgeAcquisition.Proof.Robot.Works

/-!
# Programs in the plane

What a program says about the tool, without joints, steps and speeds. The executor does that, as long as every target is
in reach and every motion ends.
-/

namespace KnowledgeAcquisition.Proof.Robot
open KnowledgeAcquisition.Robot Library

noncomputable section

structure Plane where
  position : ℂ
  offset : ℂ
  absolute : Bool

namespace Plane

/-- The program counts in hundredths. -/
def aim (plane : Plane) (cmd : GCodeCommand) : ℂ :=
  (if plane.absolute then plane.offset else plane.position) + ⟨cmd.x / hundred, cmd.y / hundred⟩

def center (plane : Plane) (cmd : GCodeCommand) : ℂ := plane.position + ⟨cmd.i / hundred, cmd.j / hundred⟩

def arcEnd (plane : Plane) (cmd : GCodeCommand) : ℂ :=
  plane.center cmd + ‖plane.position - plane.center cmd‖ *
    Complex.exp (Complex.arg (plane.aim cmd - plane.center cmd) * Complex.I)

def home : ℂ := ⟨HOME_X / hundred, HOME_Y / hundred⟩

def work (plane : Plane) (cmd : GCodeCommand) : ℂ :=
  ⟨if cmd.hasX then cmd.x else (plane.position - plane.offset).re,
   if cmd.hasY then cmd.y else (plane.position - plane.offset).im⟩

def step (plane : Plane) (cmd : GCodeCommand) : Plane :=
  match cmd.type with
  | .G0 | .G1 => if ‖plane.aim cmd - plane.position‖ < 0.001 then plane else { plane with position := plane.aim cmd }
  | .G2 | .G3 => { plane with position := plane.arcEnd cmd }
  | .G28 => if ‖home - plane.position‖ < 1e-8 then plane else { plane with position := home }
  | .G90 => { plane with absolute := true }
  | .G91 => { plane with absolute := false }
  | .G92 => { plane with offset := plane.position - plane.work cmd / hundred }
  | .G4 | .unknown => plane

def run : List GCodeCommand → Plane → Plane
  | [], plane => plane
  | cmd :: cmds, plane => if cmd.type = .unknown then plane else run cmds (plane.step cmd)

def InReach (l1 l2 : ℝ) (z : ℂ) : Prop := |l1 - l2| ≤ ‖z‖ ∧ ‖z‖ ≤ l1 + l2

/-- The arm can carry out the command. -/
def Suits (l1 l2 dt : ℝ) (plane : Plane) (cmd : GCodeCommand) : Prop :=
  match cmd.type with
  | .G0 | .G1 => ‖plane.aim cmd - plane.position‖ < 0.001 ∨
      InReach l1 l2 (plane.aim cmd) ∧ Ends (topSpeed cmd.feedrate) dt ‖plane.aim cmd - plane.position‖
  | .G2 | .G3 => InReach l1 l2 (plane.arcEnd cmd)
  | .G28 => ‖home - plane.position‖ < 1e-8 ∨ InReach l1 l2 home
  | _ => True

def Fits (l1 l2 dt : ℝ) : List GCodeCommand → Plane → Prop
  | [], _ => True
  | cmd :: cmds, plane =>
      cmd.type = .unknown ∨ Suits l1 l2 dt plane cmd ∧ Fits l1 l2 dt cmds (plane.step cmd)

end Plane

def seen (m : Machine) : Plane :=
  { position := ⟨m.robot.mx, m.robot.my⟩
    offset := ⟨m.robot.offsetX, m.robot.offsetY⟩
    absolute := m.absoluteMode }

variable {running : Nat → Bool} {m next : Machine} {l1 l2 dt : ℝ}

structure Becomes (m next : Machine) (plane : Plane) : Prop where
  first : next.robot.l1 = m.robot.l1
  second : next.robot.l2 = m.robot.l2
  seen : seen next = plane

def Arrives (m next : Machine) (z : ℂ) : Prop := Becomes m next { seen m with position := z }

theorem inReach_iff {robot : ArmRobot} {x y : ℝ} :
    Plane.InReach robot.l1 robot.l2 ⟨x, y⟩ ↔ Reachable robot x y := by
  rw [Plane.InReach, Reachable, Complex.norm_def, Complex.normSq_mk]

structure Frame (robot next : ArmRobot) : Prop where
  first : next.l1 = robot.l1
  second : next.l2 = robot.l2
  offsetX : next.offsetX = robot.offsetX
  offsetY : next.offsetY = robot.offsetY

theorem MoveTo_frame (robot : ArmRobot) (x y : ℝ) : Frame robot (robot.MoveTo x y) := by
  by_cases reachable : Reachable robot x y
  · rw [MoveTo_make_sol reachable]
    exact ⟨rfl, rfl, rfl, rfl⟩
  · rw [MoveTo_unreachable reachable]
    exact ⟨rfl, rfl, rfl, rfl⟩

theorem Frame.trans {robot next last : ArmRobot} (one : Frame robot next) (two : Frame next last) : Frame robot last :=
  ⟨two.first.trans one.first, two.second.trans one.second, two.offsetX.trans one.offsetX,
    two.offsetY.trans one.offsetY⟩

theorem MoveTo_arrives {robot : ArmRobot} {z : ℂ} (first : 0 < m.robot.l1) (second : 0 < m.robot.l2)
    (frame : Frame m.robot robot) (reach : Plane.InReach m.robot.l1 m.robot.l2 z) (looks : Nat) :
    Arrives m { m with robot := robot.MoveTo z.re z.im, looks } z := by
  have reachable : Reachable robot z.re z.im := by
    rw [← inReach_iff, frame.first, frame.second]
    exact reach
  obtain ⟨theta1, theta2, -, moved⟩ :=
    MoveTo_reachable (frame.first.symm ▸ first) (frame.second.symm ▸ second) reachable
  rw [moved]
  refine ⟨frame.first, frame.second, ?_⟩
  simp only [seen, frame.offsetX, frame.offsetY]

theorem moveAlong_arrives (watched : ∀ n, running n = true) (first : 0 < m.robot.l1) (second : 0 < m.robot.l2)
    {point : Nat → ℝ × ℝ} {z : ℂ} {i left : Nat} (last : point (i + left) = (z.re, z.im))
    (reach : Plane.InReach m.robot.l1 m.robot.l2 z) :
    Arrives m (moveAlong running point i (left + 1) m) z := by
  have onward : ∀ left i (robot : ArmRobot) looks, point (i + left) = (z.re, z.im) → Frame m.robot robot →
      Arrives m (moveAlong running point i (left + 1) { m with robot, looks }) z := by
    intro left
    induction left with
    | zero =>
        intro i robot looks last frame
        simp only [moveAlong, watched, if_true]
        rw [Nat.add_zero] at last
        rw [last]
        exact MoveTo_arrives first second frame reach (looks + 1)
    | succ left ih =>
        intro i robot looks last frame
        rw [moveAlong]
        simp only [watched, if_true]
        refine ih (i + 1) _ _ ?_ (frame.trans (MoveTo_frame robot _ _))
        rw [← last, Nat.add_right_comm, Nat.add_assoc]
  exact onward left i m.robot m.looks last ⟨rfl, rfl, rfl, rfl⟩

theorem exists_stepCount (length feedrate dt : ℝ) : ∃ left, stepCount length feedrate dt = left + 1 :=
  Nat.exists_eq_succ_of_ne_zero (Nat.ne_of_gt (le_max_left 1 _))

theorem last_ratio (left : Nat) : ((1 + left : Nat) : ℝ) / (left + 1 : Nat) = 1 := by
  rw [Nat.add_comm]
  exact div_self (by exact_mod_cast Nat.succ_ne_zero left)

theorem moveLinear_arrives (watched : ∀ n, running n = true) (first : 0 < m.robot.l1) (second : 0 < m.robot.l2)
    {tx ty feedrate : ℝ} (far : ¬‖(⟨tx / hundred, ty / hundred⟩ - ⟨m.robot.mx, m.robot.my⟩ : ℂ)‖ < 1e-8)
    (reach : Plane.InReach m.robot.l1 m.robot.l2 ⟨tx / hundred, ty / hundred⟩) :
    Arrives m (moveLinear running tx ty feedrate dt m) ⟨tx / hundred, ty / hundred⟩ := by
  rw [Complex.norm_def, Complex.normSq_apply, Complex.sub_re, Complex.sub_im] at far
  unfold moveLinear
  rw [if_neg far]
  obtain ⟨left, steps⟩ := exists_stepCount (Real.sqrt ((tx / hundred - m.robot.mx) * (tx / hundred - m.robot.mx) +
    (ty / hundred - m.robot.my) * (ty / hundred - m.robot.my))) (feedrate / hundred) dt
  dsimp only
  rw [steps]
  refine moveAlong_arrives watched first second ?_ reach
  rw [last_ratio, one_mul, one_mul, add_sub_cancel, add_sub_cancel]

theorem moveArc_arrives (watched : ∀ n, running n = true) (first : 0 < m.robot.l1) (second : 0 < m.robot.l2)
    {last : ℝ → ℝ → ℝ} {arcLength : ℝ → ℝ → ℝ} (turns : ∀ s e, (last s e : Real.Angle) = e) {feedrate : ℝ}
    {center target : ℂ} {cx cy tx ty : ℝ} (mid : (⟨cx / hundred, cy / hundred⟩ : ℂ) = center)
    (aimed : (⟨tx / hundred, ty / hundred⟩ : ℂ) = target)
    (reach : Plane.InReach m.robot.l1 m.robot.l2 (center + ‖(⟨m.robot.mx, m.robot.my⟩ : ℂ) - center‖ *
      Complex.exp (Complex.arg (target - center) * Complex.I))) :
    Arrives m (moveArc running last arcLength cx cy tx ty feedrate dt m)
      (center + ‖(⟨m.robot.mx, m.robot.my⟩ : ℂ) - center‖ * Complex.exp (Complex.arg (target - center) * Complex.I)) := by
  subst mid aimed
  unfold moveArc
  dsimp only
  obtain ⟨left, steps⟩ := exists_stepCount (arcLength
    (Real.sqrt ((m.robot.mx - cx / hundred) * (m.robot.mx - cx / hundred) +
      (m.robot.my - cy / hundred) * (m.robot.my - cy / hundred)))
    (last (atan2 (m.robot.my - cy / hundred) (m.robot.mx - cx / hundred))
        (atan2 (ty / hundred - cy / hundred) (tx / hundred - cx / hundred)) -
      atan2 (m.robot.my - cy / hundred) (m.robot.mx - cx / hundred))) (feedrate / hundred) dt
  rw [steps]
  refine moveAlong_arrives watched first second ?_ reach
  have radius : ‖(⟨m.robot.mx, m.robot.my⟩ : ℂ) - ⟨cx / hundred, cy / hundred⟩‖ = Real.sqrt ((m.robot.mx - cx / hundred) *
      (m.robot.mx - cx / hundred) + (m.robot.my - cy / hundred) * (m.robot.my - cy / hundred)) := by
    rw [Complex.norm_def, Complex.normSq_apply, Complex.sub_re, Complex.sub_im]
  have direction : atan2 (ty / hundred - cy / hundred) (tx / hundred - cx / hundred) =
      Complex.arg ((⟨tx / hundred, ty / hundred⟩ : ℂ) - ⟨cx / hundred, cy / hundred⟩) := rfl
  rw [last_ratio, mul_one, add_sub_cancel, radius, Complex.add_re, Complex.add_im, Complex.re_ofReal_mul,
    Complex.im_ofReal_mul, Complex.exp_ofReal_mul_I_re, Complex.exp_ofReal_mul_I_im, ← direction, ← Real.Angle.cos_coe,
    ← Real.Angle.sin_coe, turns, Real.Angle.cos_coe, Real.Angle.sin_coe]

theorem travelStep_motion (vMax dt dist dirX dirY : ℝ) (travel : Travel) :
    smoothStep vMax dt dist travel.motion =
      (travelStep vMax dt dist dirX dirY travel).map (Sum.map Travel.motion Travel.motion) := by
  unfold smoothStep travelStep
  by_cases under : travel.motion.traveled < dist
  · rw [if_pos under, if_pos under]
    rfl
  · rw [if_neg under, if_neg under]
    rfl

theorem travelStep_frame {vMax dist dirX dirY : ℝ} {travel after : Travel}
    (again : travelStep vMax dt dist dirX dirY travel = some (.inl after)) : Frame travel.robot after.robot := by
  unfold travelStep at again
  split_ifs at again
  · obtain rfl := Sum.inl.inj (Option.some.inj again)
    dsimp only
    split
    · exact ⟨rfl, rfl, rfl, rfl⟩
    · exact ⟨rfl, rfl, rfl, rfl⟩
  · cases again

theorem travel_frame {vMax dist dirX dirY : ℝ} {fuel : Nat} {travel last : Travel}
    (ran : Loop.run (travelStep vMax dt dist dirX dirY) fuel travel = some last) : Frame travel.robot last.robot := by
  refine Loop.run_keeps (I := fun now : Travel => Frame travel.robot now.robot)
    (Q := fun now : Travel => Frame travel.robot now.robot) ?_ ?_ ⟨rfl, rfl, rfl, rfl⟩ ran
  · intro now after frame again
    exact frame.trans (travelStep_frame again)
  · intro now left frame leaves
    unfold travelStep at leaves
    split_ifs at leaves
    · cases leaves
    · exact Sum.inr.inj (Option.some.inj leaves) ▸ frame

theorem travel_ends {vMax dist : ℝ} (dirX dirY : ℝ) {fuel : Nat} (travel : Travel) {final : Motion ℝ}
    (profile : Loop.run (smoothStep vMax dt dist) fuel travel.motion = some final) :
    ∃ last, Loop.run (travelStep vMax dt dist dirX dirY) fuel travel = some last := by
  have followed := Loop.run_map Travel.motion (travelStep_motion vMax dt dist dirX dirY) fuel travel
  rw [profile] at followed
  obtain ⟨last, ran, -⟩ := Option.map_eq_some_iff.mp followed.symm
  exact ⟨last, ran⟩

theorem moveLinearSmooth_arrives (tick : 0 < dt) (first : 0 < m.robot.l1) (second : 0 < m.robot.l2)
    {tx ty feedrate : ℝ} {target : ℂ} (aimed : (⟨tx / hundred, ty / hundred⟩ : ℂ) = target)
    (far : ¬‖target - ⟨m.robot.mx, m.robot.my⟩‖ < 0.001)
    (ends : Ends (topSpeed feedrate) dt ‖target - ⟨m.robot.mx, m.robot.my⟩‖)
    (reach : Plane.InReach m.robot.l1 m.robot.l2 target) :
    ∃ fuel next, Arrives m next target ∧ ∀ more, fuel ≤ more → moveLinearSmooth more tx ty feedrate dt m = some next := by
  subst aimed
  have moves : 0 < ‖(⟨tx / hundred, ty / hundred⟩ : ℂ) - ⟨m.robot.mx, m.robot.my⟩‖ := by
    refine lt_of_lt_of_le ?_ (not_lt.mp far)
    norm_num
  obtain ⟨fuel, final, profile, -⟩ := (moveSmooth_ends_iff tick moves).1.mpr ends
  rw [Complex.norm_def, Complex.normSq_apply, Complex.sub_re, Complex.sub_im] at far profile
  let travel : Travel :=
    { robot := m.robot, cx := m.robot.mx, cy := m.robot.my, motion := { v := 0, traveled := 0 } }
  obtain ⟨last, ran⟩ := travel_ends _ _ travel profile
  refine ⟨fuel, _, MoveTo_arrives first second (travel_frame ran) reach m.looks, fun more enough => ?_⟩
  unfold moveLinearSmooth
  dsimp only
  rw [if_neg far, Loop.run_more ran enough]

/-! ## Programs -/

variable {abs : ℝ → ℝ} {cmd : GCodeCommand} {cmds : List GCodeCommand}

theorem dwell_seen (left : Nat) : seen (dwell running left m) = seen m := by
  induction left generalizing m with
  | zero => rfl
  | succ left ih =>
      unfold dwell
      split_ifs
      · exact ih
      · rfl

theorem becomes_same (m : Machine) : Becomes m m (seen m) := ⟨rfl, rfl, rfl⟩

theorem smooth_step (tick : 0 < dt) (first : 0 < m.robot.l1) (second : 0 < m.robot.l2) {tx ty feedrate : ℝ}
    {target : ℂ} (aimed : (⟨tx / hundred, ty / hundred⟩ : ℂ) = target)
    (suits : ‖target - (seen m).position‖ < 0.001 ∨ Plane.InReach m.robot.l1 m.robot.l2 target ∧
      Ends (topSpeed feedrate) dt ‖target - (seen m).position‖) :
    ∃ fuel next, Becomes m next
        (if ‖target - (seen m).position‖ < 0.001 then seen m else { seen m with position := target }) ∧
      ∀ more, fuel ≤ more → moveLinearSmooth more tx ty feedrate dt m = some next := by
  by_cases near : ‖target - (seen m).position‖ < 0.001
  · rw [if_pos near]
    subst aimed
    rw [Complex.norm_def, Complex.normSq_apply] at near
    exact ⟨0, m, becomes_same m, fun more _ => if_pos near⟩
  · obtain ⟨reach, ends⟩ := suits.resolve_left near
    rw [if_neg near]
    exact moveLinearSmooth_arrives tick first second aimed near ends reach

theorem home_step (watched : ∀ n, running n = true) (first : 0 < m.robot.l1) (second : 0 < m.robot.l2) (feedrate : ℝ)
    (suits : ‖Plane.home - (seen m).position‖ < 1e-8 ∨ Plane.InReach m.robot.l1 m.robot.l2 Plane.home) :
    Becomes m (moveLinear running HOME_X HOME_Y feedrate dt m)
      (if ‖Plane.home - (seen m).position‖ < 1e-8 then seen m else { seen m with position := Plane.home }) := by
  by_cases near : ‖Plane.home - (seen m).position‖ < 1e-8
  · rw [if_pos near]
    rw [Complex.norm_def, Complex.normSq_apply] at near
    rw [show moveLinear running HOME_X HOME_Y feedrate dt m = m from if_pos near]
    exact becomes_same m
  · rw [if_neg near]
    exact moveLinear_arrives watched first second near (suits.resolve_left near)

theorem turn_back {angle : ℝ} : ((angle - 2 * Real.pi : ℝ) : Real.Angle) = angle := by
  rw [Real.Angle.coe_sub, Real.Angle.coe_two_pi, sub_zero]

theorem turn_on {angle : ℝ} : ((angle + 2 * Real.pi : ℝ) : Real.Angle) = angle := by
  rw [Real.Angle.coe_add, Real.Angle.coe_two_pi, add_zero]

theorem perform_step (watched : ∀ n, running n = true) (tick : 0 < dt) (first : 0 < m.robot.l1)
    (second : 0 < m.robot.l2) (suits : Plane.Suits m.robot.l1 m.robot.l2 dt (seen m) cmd) :
    ∃ fuel next, Becomes m next ((seen m).step cmd) ∧
      ∀ more, fuel ≤ more → perform running abs more dt cmd m = some next := by
  have aimed : (⟨(if m.absoluteMode then cmd.x + m.robot.offsetX * hundred else cmd.x + m.robot.mx * hundred) / hundred,
      (if m.absoluteMode then cmd.y + m.robot.offsetY * hundred else cmd.y + m.robot.my * hundred) / hundred⟩ : ℂ) =
      (seen m).aim cmd := by
    cases mode : m.absoluteMode <;>
      · apply Complex.ext <;> simp [Plane.aim, seen, mode, hundred_eq] <;> ring
  have mid : (⟨(m.robot.mx * hundred + cmd.i) / hundred, (m.robot.my * hundred + cmd.j) / hundred⟩ : ℂ) =
      (seen m).center cmd := by
    apply Complex.ext <;> simp [Plane.center, seen, hundred_eq] <;> ring
  have always : ∀ next plane, Becomes m next plane → ∃ fuel after, Becomes m after plane ∧
      ∀ more, fuel ≤ more → some next = some after := fun next plane becomes => ⟨0, next, becomes, fun _ _ => rfl⟩
  unfold perform Plane.step
  unfold Plane.Suits at suits
  cases type : cmd.type <;> rw [type] at suits <;> dsimp only at suits ⊢
  case G0 => exact smooth_step tick first second aimed suits
  case G1 => exact smooth_step tick first second aimed suits
  case G2 =>
    refine always _ _ (moveArc_arrives watched first second (fun s e => ?_) mid aimed suits)
    split_ifs
    · exact turn_back
    · rfl
  case G3 =>
    refine always _ _ (moveArc_arrives watched first second (fun s e => ?_) mid aimed suits)
    split_ifs
    · exact turn_on
    · rfl
  case G4 =>
    have still : (dwell running 100 m).robot = m.robot := dwell_works 100
    exact always _ _ ⟨congrArg ArmRobot.l1 still, congrArg ArmRobot.l2 still, dwell_seen 100⟩
  case G28 => exact always _ _ (home_step watched first second _ suits)
  case G90 => exact always _ _ ⟨rfl, rfl, rfl⟩
  case G91 => exact always _ _ ⟨rfl, rfl, rfl⟩
  case G92 =>
    refine always _ _ ⟨rfl, rfl, ?_⟩
    have offset : (⟨m.robot.mx - (if cmd.hasX then cmd.x else m.robot.GetCurrentX_Work) / hundred,
        m.robot.my - (if cmd.hasY then cmd.y else m.robot.GetCurrentY_Work) / hundred⟩ : ℂ) =
        (seen m).position - (seen m).work cmd / hundred := by
      apply Complex.ext <;> simp [Plane.work, seen, ArmRobot.GetCurrentX_Work, ArmRobot.GetCurrentY_Work]
    rw [← offset]
    rfl
  case unknown => exact always _ _ (becomes_same m)

/-- A program that the arm can carry out does in the plane what it says. -/
theorem ExecuteGCodeStep_run (watched : ∀ n, running n = true) (tick : 0 < dt) (first : 0 < m.robot.l1)
    (second : 0 < m.robot.l2) (fits : Plane.Fits m.robot.l1 m.robot.l2 dt cmds (seen m)) :
    ∃ fuel next, seen next = Plane.run cmds (seen m) ∧
      ∀ more, fuel ≤ more → ExecuteGCodeStep running abs more dt cmds m = some next := by
  induction cmds generalizing m with
  | nil => exact ⟨0, m, rfl, fun _ _ => rfl⟩
  | cons cmd cmds ih =>
      let shown : Machine := { m with looks := m.looks + 1 }
      by_cases last : cmd.type = .unknown
      · refine ⟨0, shown, (if_pos last).symm, fun more _ => ?_⟩
        unfold ExecuteGCodeStep perform
        rw [watched, if_pos rfl, last]
        exact if_pos rfl
      · obtain ⟨suits, rest⟩ := fits.resolve_left last
        obtain ⟨fuel, after, becomes, performed⟩ := perform_step (m := shown) watched tick first second suits
        rw [show (seen m).step cmd = seen after from becomes.seen.symm] at rest
        have first' := becomes.first.symm ▸ first
        have second' := becomes.second.symm ▸ second
        obtain ⟨fuel', next, final, ran⟩ := ih first' second' (by rw [becomes.first, becomes.second]; exact rest)
        refine ⟨max fuel fuel', next, ?_, fun more enough => ?_⟩
        · rw [final, becomes.seen]
          exact (if_neg last).symm
        · unfold ExecuteGCodeStep
          rw [watched, if_pos rfl, performed more (le_of_max_le_left enough)]
          dsimp only
          rw [if_neg last, ran more (le_of_max_le_right enough)]

theorem ends_tenth : Ends (topSpeed (50 : ℝ)) (7 / 100) (1 / 10) := by
  refine ⟨by norm_num [topSpeed], ?_⟩
  rw [if_neg (by norm_num [topSpeed, accel])]
  intro k before
  norm_num [topSpeed, decel] at before ⊢
  have few : k < 5 := by
    by_contra many
    have five : (5 : ℝ) ≤ k := by exact_mod_cast not_lt.mp many
    linarith
  have four : (k : ℝ) ≤ 4 := by exact_mod_cast Nat.le_of_lt_succ few
  linarith

theorem ExecuteGCodeStep_run_home :
    ∃ fuel next, seen next = { position := (-9 / 10 : ℝ), offset := (-1 : ℝ), absolute := true } ∧
      ∀ more, fuel ≤ more → ExecuteGCodeStep (fun _ => true) (fun angle => |angle|) more (7 / 100)
        [{ type := .G28 }, { type := .G92 }, { type := .G1, x := 10, feedrate := 50 }]
        { robot := ArmRobot.new (1 / 2) (1 / 2) [], absoluteMode := true, looks := 0 } = some next := by
  have axis : ∀ a : ℝ, (⟨a, 0⟩ : ℂ) = a := fun a => rfl
  have away : Plane.step { position := (1 : ℝ), offset := 0, absolute := true } { type := .G28 } =
      { position := (-1 : ℝ), offset := 0, absolute := true } := by
    have home : Plane.home = (-1 : ℝ) := by
      norm_num [Plane.home, HOME_X, HOME_Y, axis, hundred_eq]
    simp only [Plane.step, home, ← Complex.ofReal_sub, Complex.norm_real]
    norm_num
  have zero : Plane.step { position := (-1 : ℝ), offset := 0, absolute := true } { type := .G92 } =
      { position := (-1 : ℝ), offset := (-1 : ℝ), absolute := true } := by
    simp [Plane.step, Plane.work, axis]
  have aim : Plane.aim { position := (-1 : ℝ), offset := (-1 : ℝ), absolute := true }
      { type := .G1, x := 10, feedrate := 50 } = (-9 / 10 : ℝ) := by
    simp only [Plane.aim, if_true, zero_div, axis]
    norm_num [hundred_eq]
  have back : Plane.step { position := (-1 : ℝ), offset := (-1 : ℝ), absolute := true }
      { type := .G1, x := 10, feedrate := 50 } =
      { position := (-9 / 10 : ℝ), offset := (-1 : ℝ), absolute := true } := by
    simp only [Plane.step, aim, ← Complex.ofReal_sub, Complex.norm_real]
    norm_num
  have start : seen { robot := ArmRobot.new (1 / 2) (1 / 2) [], absoluteMode := true, looks := 0 } =
      { position := (1 : ℝ), offset := 0, absolute := true } := by
    simp only [seen, ArmRobot.new, ArmRobot.UpdatePosition, axis]
    norm_num
    rfl
  have fits : Plane.Fits (1 / 2) (1 / 2) (7 / 100)
      [{ type := .G28 }, { type := .G92 }, { type := .G1, x := 10, feedrate := 50 }]
      { position := (1 : ℝ), offset := 0, absolute := true } := by
    refine Or.inr ⟨Or.inr ?_, Or.inr ⟨trivial, Or.inr ⟨Or.inr ⟨?_, ?_⟩, trivial⟩⟩⟩
    · norm_num [Plane.InReach, Plane.home, HOME_X, HOME_Y, axis, hundred_eq]
    · rw [away, zero, aim, Plane.InReach, Complex.norm_real]
      norm_num
    · rw [away, zero, aim, ← Complex.ofReal_sub, Complex.norm_real]
      norm_num
      exact ends_tenth
  have program : ∃ fuel next, seen next = Plane.run
      [{ type := .G28 }, { type := .G92 }, { type := .G1, x := 10, feedrate := 50 }]
      (seen { robot := ArmRobot.new (1 / 2) (1 / 2) [], absoluteMode := true, looks := 0 }) ∧
      ∀ more, fuel ≤ more → ExecuteGCodeStep (fun _ => true) (fun angle => |angle|) more (7 / 100)
        [{ type := .G28 }, { type := .G92 }, { type := .G1, x := 10, feedrate := 50 }]
        { robot := ArmRobot.new (1 / 2) (1 / 2) [], absoluteMode := true, looks := 0 } = some next := by
    refine ExecuteGCodeStep_run (fun _ => rfl) (by norm_num) ?_ ?_ (start ▸ fits)
    · norm_num [ArmRobot.new, ArmRobot.UpdatePosition]
    · norm_num [ArmRobot.new, ArmRobot.UpdatePosition]
  obtain ⟨fuel, next, final, ran⟩ := program
  refine ⟨fuel, next, ?_, ran⟩
  rw [final, start]
  simp only [Plane.run, away, zero, back]
  rfl

end

end KnowledgeAcquisition.Proof.Robot
