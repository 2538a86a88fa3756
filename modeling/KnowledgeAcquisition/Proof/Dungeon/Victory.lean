import KnowledgeAcquisition.Proof.Dungeon.Runs
import Mathlib.Tactic.Ring

/-!
# A way to win

Whatever `rand` returns, enough blows defeat an enemy, and the enemy strikes back once less. What is known of the player
on the way is a bound for the health and the number of defeated enemies, from which the strength follows.
-/

namespace KnowledgeAcquisition.Proof.Dungeon
open KnowledgeAcquisition.Dungeon Library

variable {game : Game} {room : Room} {turn : Turn} {i : Nat} {killed hp : Int} {left : List Nat}

def Untouched (game : Game) (i : Nat) : Prop :=
  ∃ room, game.rooms[i]? = some room ∧ room.cleared = false ∧ (initRooms[i]?).map Room.enemyHp = some room.enemyHp

/-- The player has used the sword, stands in room `i`, and the enemies of the rooms `left` are waiting. -/
structure Stage (game : Game) (i : Nat) (killed hp : Int) (left : List Nat) : Prop where
  inv : Invariant game
  here : game.player.currentRoom = i
  killed : kills game = killed
  hp : hp ≤ game.player.hp
  sword : carried Item.damageBonus game = 0
  left : ∀ j ∈ left, Untouched game j

def LairStands (game : Game) : Prop := ∃ lair, game.rooms[5]? = some lair ∧ lair.cleared = false

theorem Stage.lairStands (stage : Stage game i killed hp left) (waiting : 5 ∈ left) : LairStands game := by
  obtain ⟨lair, found, fighting, _⟩ := stage.left 5 waiting
  exact ⟨lair, found, fighting⟩

theorem statusOf_playing {choice : Int} (inv : Invariant game) (stands : LairStands game) (alive : 0 < game.player.hp)
    (stay : choice ≠ 9) : statusOf choice game = some .playing := by
  obtain ⟨lair, found, here, _⟩ := lair_found inv
  obtain ⟨lair', here', fighting⟩ := stands
  obtain rfl := Option.some.inj (here.symm.trans here')
  rw [statusOf, found]
  simp [fighting, alive, stay]

theorem statusOf_victory {choice : Int} (inv : Invariant game)
    (won : ∃ lair, game.rooms[5]? = some lair ∧ lair.cleared = true) : statusOf choice game = some .victory := by
  obtain ⟨lair, found, here, defeated⟩ := lair_found inv
  obtain ⟨lair', here', cleared⟩ := won
  obtain rfl := Option.some.inj (here.symm.trans here')
  rw [statusOf, found]
  simp [cleared, defeated.mp cleared]

theorem Stage.weaken {hp' : Int} (stage : Stage game i killed hp left) (less : hp' ≤ hp) : Stage game i killed hp' left :=
  { stage with hp := le_trans less stage.hp }

def Leads (i direction j : Nat) : Prop :=
  ∀ room, (initRooms.map plan)[i]? = some (plan room) → newRoomOf room direction = j

theorem stage_moves {direction j : Nat} (stage : Stage game i killed hp left) (leads : Leads i direction j) (inside : j ≤ 5)
    (waiting : 5 ∈ left) (alive : 0 < hp) (known : direction < 4) (choice : turn.choice = direction + 1) :
    ∃ next, step (game, .playing) turn = some (next, .playing) ∧ Stage next j killed hp left := by
  have acts : act turn game = movePlayer direction game := by
    unfold act
    rw [choice]
    interval_cases direction <;> rfl
  have stay : turn.choice ≠ 9 := by omega
  obtain ⟨room, found, _, planned⟩ := room_found stage.inv.plans stage.inv.inside
  rw [stage.here] at planned
  have new := leads room planned
  obtain ⟨_, found', _, _⟩ := room_found stage.inv.plans (i := j) (by omega)
  let next : Game := { game with player := { game.player with currentRoom := j } }
  have moved : act turn game = some next := by
    have open' : ¬ (j : Int) = -1 := by omega
    rw [acts, movePlayer, found]
    simp only [Option.bind_eq_bind, Option.bind_some]
    rw [new, if_neg open', found']
    rfl
  obtain ⟨_, acted, inv, _⟩ := act_keeps turn stage.inv
  obtain rfl := Option.some.inj (moved.symm.trans acted)
  have stage' : Stage next j killed hp left := ⟨inv, rfl, stage.killed, stage.hp, stage.sword, stage.left⟩
  refine ⟨next, ?_, stage'⟩
  rw [step, if_pos rfl, moved]
  simp only [Option.bind_eq_bind, Option.bind_some]
  rw [statusOf_playing inv (stage'.lairStands waiting) (lt_of_lt_of_le alive stage'.hp) stay]
  rfl

structure Fighting (game : Game) (i : Nat) (strength : Int) (room : Room) : Prop where
  here : game.rooms[i]? = some room
  fighting : room.cleared = false
  enemyHp : room.enemyHp = strength
  alive : 0 < strength

theorem Stage.untouched_set (stage : Stage game i killed hp left) (absent : i ∉ left) {new : Room} :
    ∀ j ∈ left, ∃ room, (game.rooms.set i new)[j]? = some room ∧ room.cleared = false ∧
      (initRooms[j]?).map Room.enemyHp = some room.enemyHp := by
  intro j member
  have other : i ≠ j := fun same => absent (same ▸ member)
  rw [List.getElem?_set_ne other]
  exact stage.left j member

theorem Stage.setRoom_eq (stage : Stage game i killed hp left) (new : Room) :
    setRoom game new = game.rooms.set i new := by
  rw [setRoom, stage.here, Int.toNat_natCast]

theorem Fighting.strong {strength : Int} (opponent : Fighting game i strength room) (inv : Invariant game) :
    0 < room.enemyAttack := by
  have roomInv := inv.rooms room (List.mem_of_getElem? opponent.here)
  have alive := opponent.alive
  have enemyHp := opponent.enemyHp
  by_contra weak
  have none := roomInv.none (by omega)
  omega

theorem act_attack (blow : turn.choice = 8) (game : Game) : act turn game = attackEnemy turn game := by
  unfold act
  rw [blow]
  rfl

section Blow

variable {strength : Int} (stage : Stage game i killed hp left) (absent : i ∉ left)
  (opponent : Fighting game i strength room)

include stage absent opponent

theorem stage_defeats (dead : (struck turn game room).enemyHp ≤ 0) :
    Stage (defeat turn game room) i (killed + 1) hp left ∧
      ∃ won, (defeat turn game room).rooms[i]? = some won ∧ won.cleared = true := by
  have here : game.rooms[game.player.currentRoom.toNat]? = some room := by
    rw [stage.here, Int.toNat_natCast, opponent.here]
  have strong := opponent.strong stage.inv
  have rooms := stage.setRoom_eq { struck turn game room with cleared := true }
  have inside : i < game.rooms.length := (List.getElem?_eq_some_iff.mp opponent.here).1
  refine ⟨⟨defeat_keeps here stage.inv opponent.fighting strong dead, ?_, ?_, ?_, ?_, ?_⟩, ?_⟩
  · exact (award_same _ _ _).1.trans stage.here
  · rw [kills_defeat here opponent.fighting strong, stage.killed]
  · have bound := stage.hp
    have most := stage.inv.balanced.hp
    simp only [defeat, award]
    split
    · dsimp only
      omega
    · exact bound
  · rw [carried_defeat here, stage.sword]
  · unfold Untouched
    rw [defeat, rooms]
    exact stage.untouched_set absent
  · refine ⟨{ struck turn game room with cleared := true }, ?_, rfl⟩
    rw [defeat, rooms]
    exact List.getElem?_set_self inside

theorem stage_retaliates {damage : Int} (least : 1 ≤ damage)
    (most : room.enemyAttack + 3 - game.player.defense ≤ damage) (lives : ¬ (struck turn game room).enemyHp ≤ 0) :
    Stage (retaliate turn game room) i killed (hp - damage) left ∧
      Fighting (retaliate turn game room) i (struck turn game room).enemyHp (struck turn game room) := by
  have here : game.rooms[game.player.currentRoom.toNat]? = some room := by
    rw [stage.here, Int.toNat_natCast, opponent.here]
  have strong := opponent.strong stage.inv
  have rooms := stage.setRoom_eq (struck turn game room)
  have inside : i < game.rooms.length := (List.getElem?_eq_some_iff.mp opponent.here).1
  refine ⟨⟨retaliate_keeps here stage.inv opponent.fighting strong lives, stage.here, ?_, ?_, ?_, ?_⟩, ⟨?_, ?_, rfl, ?_⟩⟩
  · rw [kills_retaliate here opponent.fighting, stage.killed]
  · have bound := stage.hp
    simp only [retaliate]
    split <;> omega
  · rw [carried_retaliate here, stage.sword]
  · unfold Untouched
    rw [retaliate, rooms]
    exact stage.untouched_set absent
  · rw [retaliate, rooms]
    exact List.getElem?_set_self inside
  · exact opponent.fighting
  · omega

end Blow

def statusAfter (i : Nat) : Status := if i = 5 then .victory else .playing

theorem idle_turns {turns : List Turn} (blows : ∀ turn ∈ turns, turn.choice = 8) (stage : Stage game i killed hp left)
    (cleared : ∃ won, game.rooms[i]? = some won ∧ won.cleared = true) (stands : i ≠ 5 → LairStands game) (alive : 0 < hp) :
    turns.foldlM step (game, statusAfter i) = some (game, statusAfter i) := by
  induction turns with
  | nil => rfl
  | cons turn turns ih =>
      rw [List.forall_mem_cons] at blows
      have first : step (game, statusAfter i) turn = some (game, statusAfter i) := by
        by_cases lair : i = 5
        · rw [step, statusAfter, if_pos lair]
          rfl
        · obtain ⟨won, here, done⟩ := cleared
          obtain ⟨room, found, here', _⟩ := room_found stage.inv.plans stage.inv.inside
          rw [stage.here, Int.toNat_natCast] at here'
          obtain rfl := Option.some.inj (here.symm.trans here')
          have idle : act turn game = some game := by
            rw [act_attack blows.1, attackEnemy, found]
            simp only [Option.bind_eq_bind, Option.bind_some]
            rw [if_pos (Or.inl done)]
          have stay : turn.choice ≠ 9 := by
            rw [blows.1]
            decide
          rw [step, statusAfter, if_neg lair, if_pos rfl, idle]
          simp only [Option.bind_eq_bind, Option.bind_some]
          rw [statusOf_playing stage.inv (stands lair) (lt_of_lt_of_le alive stage.hp) stay]
          rfl
      rw [List.foldlM_cons, first]
      exact ih blows.2

theorem LairStands.set (stands : LairStands game) {new : Room} (here : i ≠ 5 ∨ new.cleared = false) :
    ∃ lair, (game.rooms.set i new)[5]? = some lair ∧ lair.cleared = false := by
  obtain ⟨lair, found, fighting⟩ := stands
  by_cases same : i = 5
  · subst same
    refine ⟨new, ?_, here.resolve_left (absurd rfl)⟩
    exact List.getElem?_set_self (List.getElem?_eq_some_iff.mp found).1
  · exact ⟨lair, by rw [List.getElem?_set_ne same, found], fighting⟩

theorem fight {turns : List Turn} {strength attack damage : Int} (blows : ∀ turn ∈ turns, turn.choice = 8)
    (stage : Stage game i killed hp left) (absent : i ∉ left) (opponent : Fighting game i strength room)
    (stands : LairStands game) (attacks : attack ≤ game.player.attack) (least : 1 ≤ damage)
    (most : room.enemyAttack + 3 - game.player.defense ≤ damage) (enough : strength ≤ turns.length * attack)
    (safe : (turns.length - 1) * damage < hp) :
    ∃ next, turns.foldlM step (game, .playing) = some (next, statusAfter i) ∧
      Stage next i (killed + 1) (hp - (turns.length - 1) * damage) left ∧ (i ≠ 5 → LairStands next) := by
  induction turns generalizing game hp strength room with
  | nil =>
      have alive := opponent.alive
      simp at enough
      omega
  | cons turn turns ih =>
      rw [List.forall_mem_cons] at blows
      have here : game.rooms[game.player.currentRoom.toNat]? = some room := by
        rw [stage.here, Int.toNat_natCast, opponent.here]
      have found : roomAt game.rooms game.player.currentRoom = some room := by
        have inside := stage.inv.inside
        rw [roomAt, if_neg (by omega), here]
      have struckHp : (struck turn game room).enemyHp = strength - (game.player.attack + (turn.first % 5 : Nat)) := by
        rw [← opponent.enemyHp]
        rfl
      have stay : turn.choice ≠ 9 := by
        rw [blows.1]
        decide
      have acted := (act_attack blows.1 game).trans
        (attackEnemy_eq found opponent.fighting (opponent.enemyHp ▸ opponent.alive))
      rw [List.length_cons, Nat.cast_succ, add_sub_cancel_right] at safe
      rw [List.length_cons, Nat.cast_succ, add_sub_cancel_right, List.foldlM_cons, step, if_pos rfl, acted]
      have nonneg : 0 ≤ turns.length * damage := mul_nonneg (Int.natCast_nonneg _) (by omega)
      by_cases dead : (struck turn game room).enemyHp ≤ 0
      · obtain ⟨stage', won⟩ := stage_defeats stage absent opponent dead
        have stands' : i ≠ 5 → LairStands (defeat turn game room) := by
          intro other
          rw [LairStands, defeat, stage.setRoom_eq]
          exact stands.set (Or.inl other)
        have alive : 0 < hp := by omega
        have status : statusOf turn.choice (defeat turn game room) = some (statusAfter i) := by
          unfold statusAfter
          by_cases lair : i = 5
          · rw [if_pos lair]
            exact statusOf_victory stage'.inv (lair ▸ won)
          · rw [if_neg lair]
            exact statusOf_playing stage'.inv (stands' lair) (lt_of_lt_of_le alive stage'.hp) stay
        rw [if_pos dead]
        refine ⟨defeat turn game room, ?_, stage'.weaken (by omega), stands'⟩
        simp only [Option.bind_eq_bind, Option.bind_some, status]
        exact idle_turns blows.2 stage' won stands' alive
      · obtain ⟨stage', opponent'⟩ := stage_retaliates stage absent opponent least most dead
        have alive' := opponent'.alive
        have rest : (struck turn game room).enemyHp ≤ turns.length * attack := by
          have split : ((turns.length : Int) + 1) * attack = turns.length * attack + attack := by ring
          rw [List.length_cons, Nat.cast_succ, split] at enough
          omega
        have more : 1 ≤ (turns.length : Int) := by
          by_contra none
          have zero : (turns.length : Int) = 0 := by omega
          rw [zero, zero_mul] at rest
          omega
        have once : ((turns.length : Int) - 1) * damage = turns.length * damage - damage := by ring
        have first : damage ≤ turns.length * damage := le_mul_of_one_le_left (by omega) more
        have stands' : LairStands (retaliate turn game room) := by
          rw [LairStands, retaliate, stage.setRoom_eq]
          exact stands.set (Or.inr opponent.fighting)
        have status : statusOf turn.choice (retaliate turn game room) = some .playing := by
          have hp := stage'.hp
          exact statusOf_playing stage'.inv stands' (by omega) stay
        obtain ⟨next, ran, final, last⟩ := ih blows.2 stage' opponent' stands' attacks most rest (by omega)
        rw [if_neg dead]
        refine ⟨next, ?_, final.weaken (by omega), last⟩
        simp only [Option.bind_eq_bind, Option.bind_some, status]
        exact ran

theorem Stage.strength (stage : Stage game i killed hp left) :
    20 + 3 * (20 * killed / 50) ≤ game.player.attack ∧ 5 + 2 * (20 * killed / 50) ≤ game.player.defense := by
  have balanced := stage.inv.balanced
  have attack := balanced.attack
  have defense := balanced.defense
  have level := balanced.level
  have experience := balanced.experience
  rw [stage.sword] at attack
  rw [stage.killed] at experience
  omega

theorem stage_fights {turns : List Turn} {enemy : Room} {n damage : Int} (stage : Stage game i killed hp (i :: left))
    (blows : ∀ turn ∈ turns, turn.choice = 8) (absent : i ∉ left) (setup : initRooms[i]? = some enemy)
    (waiting : 5 ∈ i :: left) (count : turns.length = n) (strong : 0 < enemy.enemyHp) (least : 1 ≤ damage)
    (most : enemy.enemyAttack + 3 - (5 + 2 * (20 * killed / 50)) ≤ damage)
    (enough : enemy.enemyHp ≤ n * (20 + 3 * (20 * killed / 50))) (safe : (n - 1) * damage < hp) :
    ∃ next, turns.foldlM step (game, .playing) = some (next, statusAfter i) ∧
      Stage next i (killed + 1) (hp - (n - 1) * damage) left := by
  obtain ⟨room, here, fighting, same⟩ := stage.left i List.mem_cons_self
  have enemyHp : room.enemyHp = enemy.enemyHp := by
    rw [setup] at same
    exact (Option.some.inj same).symm
  have enemyAttack : room.enemyAttack = enemy.enemyAttack := by
    have planned := congrArg (fun plans : List _ => plans[i]?) stage.inv.plans
    rw [List.getElem?_map, List.getElem?_map, here, setup] at planned
    exact congrArg (fun p => p.2.2.2.2) (Option.some.inj planned)
  have opponent : Fighting game i enemy.enemyHp room := ⟨here, fighting, enemyHp, strong⟩
  have rest : Stage game i killed hp left :=
    { stage with left := fun j member => stage.left j (List.mem_cons_of_mem i member) }
  have strength := stage.strength
  rw [← count] at enough safe ⊢
  obtain ⟨next, ran, final, _⟩ := fight blows rest absent opponent (stage.lairStands waiting) strength.1 least
    (by omega) enough safe
  exact ⟨next, ran, final⟩

/-! ## The way -/

/-- Choices and numbers of items: the sword, then the rat, the goblin, the orc and the dragon. -/
def script : List (Int × Int) :=
  [(3, 0), (5, 1), (6, 2), (1, 0), (8, 0), (4, 0), (8, 0), (8, 0), (3, 0), (1, 0), (8, 0), (8, 0), (8, 0), (3, 0), (8, 0),
    (8, 0), (8, 0), (8, 0), (8, 0)]

def turnOf (rand : Nat → Nat × Nat × Nat) (i : Nat) (entry : Int × Int) : Turn :=
  { choice := entry.1, number := entry.2, first := (rand i).1, second := (rand i).2.1, third := (rand i).2.2 }

def turnsOf (rand : Nat → Nat × Nat × Nat) : Nat → List (Int × Int) → List Turn
  | _, [] => []
  | i, entry :: entries => turnOf rand i entry :: turnsOf rand (i + 1) entries

def armed : Game :=
  { player := { initGame.player with attack := 20, currentRoom := 3 }
    rooms := initRooms.modify 2 fun room => { room with items := [healthPotion] } }

theorem arming (rand : Nat → Nat × Nat × Nat) :
    (turnsOf rand 0 [(3, 0), (5, 1), (6, 2), (1, 0)]).foldlM step (initGame, .playing) = some (armed, .playing) :=
  rfl

theorem armed_stage : Stage armed 3 0 100 [3, 1, 4, 5] := by
  have inv : Invariant armed := by
    obtain ⟨state, ran, played⟩ := play_keeps (turnsOf (fun _ => (0, 0, 0)) 0 [(3, 0), (5, 1), (6, 2), (1, 0)])
    obtain rfl := Option.some.inj ((arming _).symm.trans ran)
    exact played.inv
  refine ⟨inv, rfl, by decide, le_rfl, by decide, ?_⟩
  intro j member
  simp only [List.mem_cons, List.not_mem_nil, or_false] at member
  rcases member with rfl | rfl | rfl | rfl
  · exact ⟨_, rfl, rfl, rfl⟩
  · exact ⟨_, rfl, rfl, rfl⟩
  · exact ⟨_, rfl, rfl, rfl⟩
  · exact ⟨_, rfl, rfl, rfl⟩

theorem leads_of_plan {direction j : Nat} {enemy : Room} (setup : initRooms[i]? = some enemy)
    (exit : newRoomOf enemy direction = j) : Leads i direction j := by
  intro room planned
  rw [List.getElem?_map, setup] at planned
  have parts := Option.some.inj planned
  simp only [plan, Prod.mk.injEq] at parts
  obtain ⟨north, south, east, west, _⟩ := parts
  rw [← exit]
  unfold newRoomOf
  split
  · exact north.symm
  · exact south.symm
  · exact east.symm
  · exact west.symm
  · rfl

section Appended

variable {state next last : Game × Status} {turns later : List Turn}

theorem run_single (stepped : step state turn = some next) : [turn].foldlM step state = some next := by
  rw [List.foldlM_cons, stepped]
  rfl

theorem runs_append (first : turns.foldlM step state = some next) (rest : later.foldlM step next = some last) :
    (turns ++ later).foldlM step state = some last := by
  rw [List.foldlM_append, first]
  exact rest

end Appended

theorem script_wins (rand : Nat → Nat × Nat × Nat) :
    ∃ game, play (turnsOf rand 0 script) = some (game, .victory) ∧ 0 < game.player.hp := by
  let turn := turnOf rand
  have blow : ∀ i, (turn i (8, 0)).choice = 8 := fun _ => rfl
  -- The rat falls with the first blow.
  obtain ⟨afterRat, rat, stage⟩ := @stage_fights _ _ _ _ _ [turn 4 (8, 0)] _ 1 4 armed_stage (by simp [blow])
    (by decide) rfl (by decide) rfl (by decide) (by decide) (by decide) (by decide) (by decide)
  obtain ⟨_, west, stage⟩ := @stage_moves _ (turn 5 (4, 0)) _ _ _ _ 3 1 stage (leads_of_plan rfl rfl) (by decide)
    (by decide) (by decide) (by decide) rfl
  obtain ⟨_, goblin, stage⟩ := @stage_fights _ _ _ _ _ [turn 6 (8, 0), turn 7 (8, 0)] _ 2 6 stage (by simp [blow])
    (by decide) rfl (by decide) rfl (by decide) (by decide) (by decide) (by decide) (by decide)
  obtain ⟨_, east, stage⟩ := @stage_moves _ (turn 8 (3, 0)) _ _ _ _ 2 3 stage (leads_of_plan rfl rfl) (by decide)
    (by decide) (by decide) (by decide) rfl
  obtain ⟨_, north, stage⟩ := @stage_moves _ (turn 9 (1, 0)) _ _ _ _ 0 4 stage (leads_of_plan rfl rfl) (by decide)
    (by decide) (by decide) (by decide) rfl
  obtain ⟨_, orc, stage⟩ := @stage_fights _ _ _ _ _ [turn 10 (8, 0), turn 11 (8, 0), turn 12 (8, 0)] _ 3 10 stage
    (by simp [blow]) (by decide) rfl (by decide) rfl (by decide) (by decide) (by decide) (by decide) (by decide)
  obtain ⟨_, east', stage⟩ := @stage_moves _ (turn 13 (3, 0)) _ _ _ _ 2 5 stage (leads_of_plan rfl rfl) (by decide)
    (by decide) (by decide) (by decide) rfl
  -- Three defeated enemies give a level at least, with which five blows are enough.
  obtain ⟨last, dragon, stage⟩ := @stage_fights _ _ _ _ _
    [turn 14 (8, 0), turn 15 (8, 0), turn 16 (8, 0), turn 17 (8, 0), turn 18 (8, 0)] _ 5 16 stage (by simp [blow])
    (by decide) rfl (by decide) rfl (by decide) (by decide) (by decide) (by decide) (by decide)
  have split : turnsOf rand 0 script = turnsOf rand 0 [(3, 0), (5, 1), (6, 2), (1, 0)] ++
      ([turn 4 (8, 0)] ++ ([turn 5 (4, 0)] ++ ([turn 6 (8, 0), turn 7 (8, 0)] ++ ([turn 8 (3, 0)] ++ ([turn 9 (1, 0)] ++
        ([turn 10 (8, 0), turn 11 (8, 0), turn 12 (8, 0)] ++ ([turn 13 (3, 0)] ++
          [turn 14 (8, 0), turn 15 (8, 0), turn 16 (8, 0), turn 17 (8, 0), turn 18 (8, 0)]))))))) := rfl
  refine ⟨last, ?_, lt_of_lt_of_le (by decide) stage.hp⟩
  rw [play, split]
  exact runs_append (arming rand) (runs_append rat (runs_append (run_single west) (runs_append goblin
    (runs_append (run_single east) (runs_append (run_single north) (runs_append orc
      (runs_append (run_single east') dragon)))))))

end KnowledgeAcquisition.Proof.Dungeon
