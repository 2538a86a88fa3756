import KnowledgeAcquisition.Robot.Motion
import Mathlib

/-!
# Motions that never end

Inside the braking distance the loop takes off what it has just added to the speed. When one acceleration is enough
for full speed, nothing is left, and a motion that comes to lie inside its braking distance without
reaching its end stays there for ever.
-/

namespace KnowledgeAcquisition.Proof.Robot
open KnowledgeAcquisition.Robot Library

variable {K : Type*} [Field K] [LinearOrder K] {vMax dt dist v : K}

theorem accelerate_full (rising : vMax ≤ v + accel * dt) : accelerate vMax dt v = vMax := by
  by_cases above : v + accel * dt > vMax
  · exact if_pos above
  · exact (if_neg above).trans (le_antisymm (not_lt.mp above) rising)

theorem accelerate_rising (rising : v + accel * dt ≤ vMax) : accelerate vMax dt v = v + accel * dt :=
  if_neg (not_lt.mpr rising)

theorem speed_eq (remain v : K) : speed vMax dt remain v =
    if accelerate vMax dt v * accelerate vMax dt v / (2 * decel) ≥ remain then brake dt (accelerate vMax dt v)
    else accelerate vMax dt v := by
  simp only [speed, Nat.cast_ofNat]

theorem smoothStep_again {motion : Motion K} (under : motion.traveled < dist) :
    smoothStep vMax dt dist motion = some (.inl
      { v := speed vMax dt (dist - motion.traveled) motion.v
        traveled := motion.traveled +
          min (speed vMax dt (dist - motion.traveled) motion.v * dt) (dist - motion.traveled) }) := by
  unfold smoothStep
  rw [if_pos under]
  dsimp only
  split_ifs with beyond
  · rw [min_eq_right beyond.le]
  · rw [min_eq_left (not_lt.mp beyond)]

theorem smoothStep_leaves {motion : Motion K} (arrived : dist ≤ motion.traveled) :
    smoothStep vMax dt dist motion = some (.inr motion) :=
  if_neg (not_lt.mpr arrived)

theorem smooth_stays {I : Motion K → Prop} (short : ∀ motion, I motion → motion.traveled < dist)
    (again : ∀ motion next, I motion → smoothStep vMax dt dist motion = some (.inl next) → I next)
    {motion : Motion K} (inside : I motion) (fuel : Nat) :
    Loop.run (smoothStep vMax dt dist) fuel motion = none := by
  cases ran : Loop.run (smoothStep vMax dt dist) fuel motion with
  | none => rfl
  | some final =>
      refine (Loop.run_keeps (Q := fun _ => False) again ?_ inside ran).elim
      intro motion left within leaves
      rw [smoothStep_again (short motion within)] at leaves
      cases leaves

variable [IsStrictOrderedRing K]

theorem brake_full (slow : v ≤ decel * dt) : brake dt v = 0 := by
  by_cases below : v - decel * dt < 0
  · exact if_pos below
  · exact (if_neg below).trans (le_antisymm (sub_nonpos.mpr slow) (not_lt.mp below))

theorem brake_partly (fast : decel * dt ≤ v) : brake dt v = v - decel * dt :=
  if_neg (not_lt.mpr (sub_nonneg.mpr fast))

theorem smooth_arrives {fuel : Nat} {motion final : Motion K} (start : motion.traveled ≤ dist)
    (ran : Loop.run (smoothStep vMax dt dist) fuel motion = some final) : final.traveled = dist := by
  refine Loop.run_keeps (I := fun motion => motion.traveled ≤ dist) (Q := fun final => final.traveled = dist) ?_ ?_
    start ran
  · intro motion next within again
    by_cases under : motion.traveled < dist
    · rw [smoothStep_again under] at again
      obtain rfl := Sum.inl.inj (Option.some.inj again)
      have capped := min_le_right (speed vMax dt (dist - motion.traveled) motion.v * dt) (dist - motion.traveled)
      simp only
      linarith
    · rw [smoothStep_leaves (not_lt.mp under)] at again
      cases again
  · intro motion left within leaves
    by_cases under : motion.traveled < dist
    · rw [smoothStep_again under] at leaves
      cases leaves
    · rw [smoothStep_leaves (not_lt.mp under)] at leaves
      obtain rfl := Sum.inr.inj (Option.some.inj leaves)
      exact le_antisymm within (not_lt.mp under)

theorem smooth_ends [Archimedean K] {I : K → Prop} {least : K} (moves : 0 < least)
    (faster : ∀ remain v, 0 < remain → I v → I (speed vMax dt remain v) ∧ least ≤ speed vMax dt remain v * dt)
    {motion : Motion K} (inside : I motion.v) :
    ∃ fuel final, Loop.run (smoothStep vMax dt dist) fuel motion = some final := by
  obtain ⟨count, enough⟩ := Archimedean.arch (dist - motion.traveled) moves
  let Inv : Nat → Motion K → Prop := fun k motion => I motion.v ∧ dist - motion.traveled ≤ k • least
  have advances : ∀ k motion, Inv k motion → Loop.Advances (smoothStep vMax dt dist) Inv (fun _ => True) k motion := by
    intro k motion inv
    obtain ⟨inside, bounded⟩ := inv
    by_cases under : motion.traveled < dist
    · obtain ⟨kept, far⟩ := faster (dist - motion.traveled) motion.v (sub_pos.mpr under) inside
      cases k with
      | zero =>
          rw [zero_nsmul] at bounded
          exact absurd bounded (not_le.mpr (sub_pos.mpr under))
      | succ k =>
          refine Or.inl ⟨_, k, smoothStep_again under, ⟨kept, ?_⟩, Nat.lt_succ_self k⟩
          rw [succ_nsmul] at bounded
          have positive : 0 ≤ k • least := nsmul_nonneg moves.le k
          rcases min_choice (speed vMax dt (dist - motion.traveled) motion.v * dt) (dist - motion.traveled) with
            same | same <;> simp only [same] <;> linarith
    · exact Or.inr ⟨motion, smoothStep_leaves (not_lt.mp under), trivial⟩
  obtain ⟨final, ran, -⟩ := Loop.run_total advances (count + 1) count motion ⟨inside, enough⟩ (Nat.lt_succ_self count)
  exact ⟨count + 1, final, ran⟩

omit [IsStrictOrderedRing K] in
theorem speed_full (rising : vMax ≤ v + accel * dt) (remain : K) :
    speed vMax dt remain v = if vMax * vMax / (2 * decel) ≥ remain then brake dt vMax else vMax := by
  rw [speed_eq, accelerate_full rising]

theorem gain_pos (tick : 0 < dt) : 0 < accel * dt := by
  unfold accel
  positivity

theorem still_stays (tick : 0 < dt) (far : 0 < dist) (still : vMax ≤ 0) (fuel : Nat) :
    Loop.run (smoothStep vMax dt dist) fuel { v := 0, traveled := 0 } = none := by
  have gain : 0 < accel * dt := gain_pos tick
  let I : Motion K → Prop := fun motion => vMax ≤ motion.v ∧ motion.traveled ≤ 0
  have short : ∀ motion, I motion → motion.traveled < dist := fun motion inside => inside.2.trans_lt far
  refine smooth_stays short ?_ ⟨still, le_rfl⟩ fuel
  intro motion next inside again
  have under := short motion inside
  rw [smoothStep_again under] at again
  obtain rfl := Sum.inl.inj (Option.some.inj again)
  have rising : vMax ≤ motion.v + accel * dt := by linarith [inside.1]
  have slow : vMax ≤ decel * dt := still.trans gain.le
  rw [speed_full rising, brake_full slow]
  have capped := min_le_left ((if vMax * vMax / (2 * decel) ≥ dist - motion.traveled then 0 else vMax) * dt)
    (dist - motion.traveled)
  split_ifs at capped ⊢ with brakes
  · exact ⟨still, by simp only; linarith [inside.2]⟩
  · have back : vMax * dt ≤ 0 := mul_nonpos_of_nonpos_of_nonneg still tick.le
    exact ⟨le_rfl, by simp only; linarith [inside.2]⟩

def Steps (vMax dt dist : K) (k : Nat) : Prop := k * (vMax * dt) < dist ∧ dist ≤ (k + 1) * (vMax * dt)

omit [IsStrictOrderedRing K] in
theorem exists_steps [Archimedean K] (moves : 0 < vMax * dt) (far : 0 < dist) : ∃ k, Steps vMax dt dist k := by
  obtain ⟨count, enough⟩ := Archimedean.arch dist moves
  have reached : ∃ count : Nat, dist ≤ count * (vMax * dt) := ⟨count, by rwa [nsmul_eq_mul] at enough⟩
  classical
  have least := Nat.find_spec reached
  cases found : Nat.find reached with
  | zero =>
      rw [found, Nat.cast_zero, zero_mul] at least
      exact absurd far (not_lt.mpr least)
  | succ k =>
      rw [found, Nat.cast_succ] at least
      have below : k < Nat.find reached := found ▸ Nat.lt_succ_self k
      exact ⟨k, not_le.mp (Nat.find_min reached below), least⟩

theorem Steps.before {k j : Nat} (steps : Steps vMax dt dist k) (moves : 0 < vMax * dt) (earlier : j < k) :
    vMax * dt < dist - j * (vMax * dt) := by
  have ahead : ((j : K) + 1) ≤ k := by exact_mod_cast earlier
  have scaled := mul_le_mul_of_nonneg_right ahead moves.le
  linarith [steps.1]

section Abrupt

variable {k : Nat}

theorem abrupt_step (moves : 0 < vMax * dt) (abrupt : vMax ≤ accel * dt)
    (steps : Steps vMax dt dist k) {j : Nat} (inside : j ≤ k) (forward : 0 ≤ v)
    (clear : vMax * vMax / (2 * decel) < dist - j * (vMax * dt)) :
    smoothStep vMax dt dist { v, traveled := j * (vMax * dt) } = some (.inl
      { v := vMax, traveled := if j = k then dist else ((j + 1 : Nat) : K) * (vMax * dt) }) := by
  have rising : vMax ≤ v + accel * dt := by linarith
  have ahead : (j : K) * (vMax * dt) ≤ k * (vMax * dt) :=
    mul_le_mul_of_nonneg_right (by exact_mod_cast inside) moves.le
  have under : (j : K) * (vMax * dt) < dist := ahead.trans_lt steps.1
  rw [smoothStep_again under]
  simp only [speed_full rising, if_neg (not_le.mpr clear)]
  by_cases last : j = k
  · subst last
    have final : dist - j * (vMax * dt) ≤ vMax * dt := by linarith [steps.2]
    rw [min_eq_right final, if_pos rfl, add_sub_cancel]
  · have whole := steps.before moves (lt_of_le_of_ne inside last)
    rw [min_eq_left whole.le, if_neg last, Nat.cast_succ, add_mul, one_mul]

theorem abrupt_ends (moves : 0 < vMax * dt) (positive : 0 < vMax) (abrupt : vMax ≤ accel * dt)
    (steps : Steps vMax dt dist k) (clear : vMax * vMax / (2 * decel) < dist - k * (vMax * dt)) :
    ∃ fuel final, Loop.run (smoothStep vMax dt dist) fuel { v := 0, traveled := 0 } = some final := by
  have onward : ∀ left j, j + left = k → ∀ v, 0 ≤ v → ∃ final,
      Loop.run (smoothStep vMax dt dist) (left + 2) { v, traveled := j * (vMax * dt) } = some final := by
    intro left
    induction left with
    | zero =>
        intro j same v forward
        obtain rfl : j = k := same
        have last := abrupt_step moves abrupt steps le_rfl forward clear
        rw [if_pos rfl] at last
        have there : smoothStep vMax dt dist { v := vMax, traveled := dist } = _ := smoothStep_leaves le_rfl
        exact ⟨{ v := vMax, traveled := dist }, by simp only [Loop.run, last, there]⟩
    | succ left ih =>
        intro j same v forward
        have earlier : j ≠ k := by omega
        have within : j ≤ k := by omega
        have ahead : (j : K) * (vMax * dt) ≤ k * (vMax * dt) :=
          mul_le_mul_of_nonneg_right (by exact_mod_cast within) moves.le
        have clearHere : vMax * vMax / (2 * decel) < dist - j * (vMax * dt) := by linarith
        have step := abrupt_step moves abrupt steps within forward clearHere
        rw [if_neg earlier] at step
        obtain ⟨final, ran⟩ := ih (j + 1) (by omega) vMax positive.le
        refine ⟨final, ?_⟩
        rw [show left + 1 + 2 = left + 2 + 1 from rfl]
        simp only [Loop.run, step]
        exact ran
  obtain ⟨final, ran⟩ := onward k 0 (Nat.zero_add k) 0 le_rfl
  rw [Nat.cast_zero, zero_mul] at ran
  exact ⟨k + 2, final, ran⟩

theorem abrupt_stays (moves : 0 < vMax * dt) (positive : 0 < vMax) (abrupt : vMax ≤ accel * dt)
    (steps : Steps vMax dt dist k) (caught : dist - k * (vMax * dt) ≤ vMax * vMax / (2 * decel)) (fuel : Nat) :
    Loop.run (smoothStep vMax dt dist) fuel { v := 0, traveled := 0 } = none := by
  let I : Motion K → Prop := fun motion => 0 ≤ motion.v ∧ ∃ j ≤ k, motion.traveled = j * (vMax * dt)
  have short : ∀ motion, I motion → motion.traveled < dist := by
    intro motion inside
    obtain ⟨-, j, within, place⟩ := inside
    rw [place]
    exact (mul_le_mul_of_nonneg_right (by exact_mod_cast within) moves.le).trans_lt steps.1
  refine smooth_stays short ?_ ⟨le_rfl, 0, Nat.zero_le k, by simp⟩ fuel
  intro motion next inside again
  obtain ⟨v, traveled⟩ := motion
  have under := short _ inside
  obtain ⟨forward, j, within, rfl⟩ := inside
  by_cases clear : vMax * vMax / (2 * decel) < dist - j * (vMax * dt)
  · have earlier : j ≠ k := by
      rintro rfl
      exact absurd clear (not_lt.mpr caught)
    rw [abrupt_step moves abrupt steps within forward clear, if_neg earlier] at again
    obtain rfl := Sum.inl.inj (Option.some.inj again)
    exact ⟨positive.le, j + 1, Nat.lt_of_le_of_ne within earlier, rfl⟩
  · have rising : vMax ≤ v + accel * dt := by linarith [forward]
    rw [smoothStep_again under] at again
    obtain rfl := Sum.inl.inj (Option.some.inj again)
    refine ⟨?_, j, within, ?_⟩
    · simp only [speed_full rising, if_pos (not_lt.mp clear), brake_full (show vMax ≤ decel * dt from abrupt)]
      exact le_rfl
    · simp only [speed_full rising, if_pos (not_lt.mp clear), brake_full (show vMax ≤ decel * dt from abrupt),
        zero_mul, min_eq_left (sub_pos.mpr under).le, add_zero]

end Abrupt

section Gradual

theorem gradual_stays (far : 0 < dist) (gradual : accel * dt < vMax)
    (caught : dist ≤ accel * dt * (accel * dt) / (2 * decel)) (fuel : Nat) :
    Loop.run (smoothStep vMax dt dist) fuel { v := 0, traveled := 0 } = none := by
  let I : Motion K → Prop := fun motion => motion = { v := 0, traveled := 0 }
  refine smooth_stays (I := I) ?_ ?_ rfl fuel
  · rintro motion rfl
    exact far
  · rintro motion next rfl again
    have first : accelerate vMax dt 0 = accel * dt := by
      rw [accelerate_rising (by rw [zero_add]; exact gradual.le), zero_add]
    have stops : speed vMax dt (dist - 0) 0 = 0 := by
      simp only [speed_eq, first, sub_zero, ge_iff_le, if_pos caught]
      exact brake_full le_rfl
    rw [smoothStep_again far] at again
    obtain rfl := Sum.inl.inj (Option.some.inj again)
    simp only [I, stops, zero_mul]
    rw [sub_zero, min_eq_left far.le, add_zero]

theorem gradual_speed (tick : 0 < dt) (gradual : accel * dt < vMax) (remain : K)
    (fast : min (accel * dt) (vMax - accel * dt) ≤ v) :
    min (accel * dt) (vMax - accel * dt) ≤ speed vMax dt remain v := by
  have gain : 0 < accel * dt := gain_pos tick
  have room : 0 < vMax - accel * dt := sub_pos.mpr gradual
  have moving : 0 < v := (lt_min gain room).trans_le fast
  have below : min (accel * dt) (vMax - accel * dt) ≤ vMax - accel * dt := min_le_right _ _
  have risen : min (accel * dt) (vMax - accel * dt) + accel * dt ≤ accelerate vMax dt v := by
    rcases le_total (v + accel * dt) vMax with rising | full
    · rw [accelerate_rising rising]
      linarith
    · rw [accelerate_full full]
      linarith
  unfold speed
  dsimp only
  split_ifs with brakes
  · have enough : decel * dt ≤ accelerate vMax dt v := by
      have positive := lt_min gain room
      exact (show accel * dt ≤ accelerate vMax dt v by linarith)
    rw [brake_partly enough]
    exact (show _ ≤ accelerate vMax dt v - accel * dt by linarith)
  · linarith

theorem gradual_ends [Archimedean K] (tick : 0 < dt) (far : 0 < dist) (gradual : accel * dt < vMax)
    (clear : accel * dt * (accel * dt) / (2 * decel) < dist) :
    ∃ fuel final, Loop.run (smoothStep vMax dt dist) fuel { v := 0, traveled := 0 } = some final := by
  have gain : 0 < accel * dt := gain_pos tick
  have room : 0 < vMax - accel * dt := sub_pos.mpr gradual
  have moves := mul_pos (lt_min gain room) tick
  have first : speed vMax dt (dist - 0) 0 = accel * dt := by
    have rising : accelerate vMax dt 0 = accel * dt := by
      rw [accelerate_rising (by rw [zero_add]; exact gradual.le), zero_add]
    simp only [speed_eq, rising, sub_zero, ge_iff_le, if_neg (not_le.mpr clear)]
  have begun : smoothStep vMax dt dist { v := 0, traveled := 0 } = _ := smoothStep_again far
  rw [first] at begun
  let I : K → Prop := fun v => min (accel * dt) (vMax - accel * dt) ≤ v
  have faster : ∀ remain v, 0 < remain → I v →
      I (speed vMax dt remain v) ∧ min (accel * dt) (vMax - accel * dt) * dt ≤ speed vMax dt remain v * dt := by
    intro remain v _ fast
    have kept := gradual_speed tick gradual remain fast
    exact ⟨kept, mul_le_mul_of_nonneg_right kept tick.le⟩
  have fast : I (accel * dt) := min_le_left _ _
  obtain ⟨fuel, final, ran⟩ : ∃ fuel final, Loop.run (smoothStep vMax dt dist) fuel
      { v := accel * dt, traveled := 0 + min (accel * dt * dt) (dist - 0) } = some final :=
    smooth_ends moves faster fast
  refine ⟨fuel + 1, final, ?_⟩
  simp only [Loop.run, begun]
  exact ran

end Gradual

/-! ## Which motions end -/

/-- What is left is more than the braking distance: at the start if the arm speeds up gradually, and after every number
of full steps if it does not. -/
def Ends (vMax dt dist : K) : Prop :=
  0 < vMax ∧
    if accel * dt < vMax then accel * dt * (accel * dt) / ((2 : Nat) * decel) < dist
    else ∀ k : ℕ, k * (vMax * dt) < dist → vMax * vMax / ((2 : Nat) * decel) < dist - k * (vMax * dt)

theorem moveSmooth_ends_iff [Archimedean K] {feedrate : K} (tick : 0 < dt) (far : 0 < dist) :
    ((∃ fuel final, moveSmooth fuel feedrate dt dist = some final ∧ final.traveled = dist) ↔
      Ends (topSpeed feedrate) dt dist) ∧
    ∀ fuel final, moveSmooth fuel feedrate dt dist = some final → final.traveled = dist := by
  have arrives : ∀ fuel final, moveSmooth fuel feedrate dt dist = some final → final.traveled = dist :=
    fun fuel final ran => smooth_arrives far.le ran
  have ended : (∃ fuel final, moveSmooth fuel feedrate dt dist = some final) →
      ∃ fuel final, moveSmooth fuel feedrate dt dist = some final ∧ final.traveled = dist :=
    fun ⟨fuel, final, ran⟩ => ⟨fuel, final, ran, arrives fuel final ran⟩
  unfold Ends
  rw [Nat.cast_ofNat]
  refine ⟨⟨?_, ?_⟩, arrives⟩
  · rintro ⟨fuel, final, ran, -⟩
    have runs : Loop.run (smoothStep (topSpeed feedrate) dt dist) fuel { v := 0, traveled := 0 } ≠ none := by
      rw [show Loop.run _ _ _ = some final from ran]
      exact Option.some_ne_none final
    have positive : 0 < topSpeed feedrate := by
      by_contra still
      exact runs (still_stays tick far (not_lt.mp still) fuel)
    refine ⟨positive, ?_⟩
    split_ifs with gradual
    · by_contra caught
      exact runs (gradual_stays far gradual (not_lt.mp caught) fuel)
    · have moves := mul_pos positive tick
      obtain ⟨last, steps⟩ := exists_steps moves far
      intro k before
      have clear : topSpeed feedrate * topSpeed feedrate / (2 * decel) < dist - last * (topSpeed feedrate * dt) := by
        by_contra caught
        exact runs (abrupt_stays moves positive (not_lt.mp gradual) steps (not_lt.mp caught) fuel)
      have earlier : k ≤ last := by
        by_contra later
        have ahead : (last : K) + 1 ≤ k := by exact_mod_cast not_le.mp later
        have scaled := mul_le_mul_of_nonneg_right ahead moves.le
        linarith [steps.2]
      have behind : (k : K) * (topSpeed feedrate * dt) ≤ last * (topSpeed feedrate * dt) :=
        mul_le_mul_of_nonneg_right (by exact_mod_cast earlier) moves.le
      linarith
  · rintro ⟨positive, clear⟩
    apply ended
    split_ifs at clear with gradual
    · exact gradual_ends tick far gradual clear
    · have moves := mul_pos positive tick
      obtain ⟨last, steps⟩ := exists_steps moves far
      exact abrupt_ends moves positive (not_lt.mp gradual) steps (clear last steps.1)

/-- A motion of 2.19 units at F50 with the period of the application. -/
theorem moveSmooth_hangs :
    ¬ ∃ fuel final, moveSmooth fuel (50 : ℚ) (7 / 100) (219 / 10000) = some final ∧ final.traveled = 219 / 10000 := by
  intro ended
  have clear := ((moveSmooth_ends_iff (by norm_num) (by norm_num)).1.mp ended).2
  rw [if_neg (by norm_num [accel, topSpeed])] at clear
  exact absurd (clear 1 (by norm_num [topSpeed])) (by norm_num [topSpeed, decel])

end KnowledgeAcquisition.Proof.Robot
