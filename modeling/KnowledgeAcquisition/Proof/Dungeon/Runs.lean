import KnowledgeAcquisition.Proof.Dungeon.Invariant
import Mathlib.Algebra.BigOperators.Ring.List
import Mathlib.Algebra.Order.BigOperators.Group.List
import Mathlib.Data.List.Induction

/-!
# Runs of the game

Each action is possible and keeps the invariant, and so does every run of turns.
-/

namespace KnowledgeAcquisition.Proof.Dungeon
open KnowledgeAcquisition.Dungeon Library

variable {game : Game}

structure Uses (game : Game) (used : Int) (next : Game) : Prop where
  inv : Invariant next
  bonuses : carried Item.damageBonus next = carried Item.damageBonus game - used

theorem Invariant.stays (inv : Invariant game) : Uses game 0 game := ⟨inv, (Int.sub_zero _).symm⟩

theorem movePlayer_keeps (direction : Nat) (inv : Invariant game) :
    ∃ next, movePlayer direction game = some next ∧ Uses game 0 next := by
  obtain ⟨room, found, _, planned⟩ := room_found inv.plans inv.inside
  have exits := exits_inside (by have := inv.inside; omega) planned
  have inside : newRoomOf room direction = -1 ∨ 0 ≤ newRoomOf room direction ∧ newRoomOf room direction ≤ 5 := by
    unfold newRoomOf
    split
    · exact exits _ (by simp)
    · exact exits _ (by simp)
    · exact exits _ (by simp)
    · exact exits _ (by simp)
    · exact Or.inl rfl
  rw [movePlayer, found]
  simp only [Option.bind_eq_bind, Option.bind_some]
  by_cases blocked : newRoomOf room direction = -1
  · rw [if_pos blocked]
    exact ⟨game, rfl, inv.stays⟩
  · have inside := inside.resolve_left blocked
    obtain ⟨_, found', _, _⟩ := room_found inv.plans inside
    rw [if_neg blocked, found']
    exact ⟨_, rfl, { inv with inside, balanced := { inv.balanced with } }, (Int.sub_zero _).symm⟩

theorem coins_eq {item : Item} (known : Known item) (named : item.name = "Gold Coins") : item = goldCoins := by
  rcases known with rfl | rfl | rfl
  · exact absurd named (by decide)
  · exact absurd named (by decide)
  · rfl

theorem not_coins {item : Item} (known : Known item) (named : item.name ≠ "Gold Coins") :
    item = healthPotion ∨ item = ironSword := by
  rcases known with rfl | rfl | rfl
  · exact Or.inl rfl
  · exact Or.inr rfl
  · exact absurd rfl named

/-- The rooms after an item has been taken from the one where the player is. -/
structure Taken (game : Game) (item : Item) (rooms : List Room) : Prop where
  plans : rooms.map plan = initRooms.map plan
  keeps : ∀ room ∈ rooms, RoomInvariant room
  beaten : total defeated rooms = kills game
  items : ∀ f, total (fun room => sumOf f room.items) rooms = total (fun room => sumOf f room.items) game.rooms - f item

section Picked

variable {room : Room} {item : Item} {rooms : List Room} {i : Nat}

theorem setRoom_taken (inv : Invariant game) (here : game.rooms[game.player.currentRoom.toNat]? = some room)
    (found : room.items[i]? = some item) :
    Taken game item (setRoom game { room with items := room.items.eraseIdx i }) := by
  have roomInv := inv.rooms room (List.mem_of_getElem? here)
  refine ⟨plans_set inv.plans here rfl, rooms_set inv.rooms ⟨?_, roomInv.enemy, roomInv.none⟩, ?_, ?_⟩
  · exact fun item member => roomInv.items item (List.mem_of_mem_eraseIdx member)
  · rw [setRoom, total_set _ here]
    exact Int.sub_add_cancel _ _
  · intro f
    rw [setRoom, total_set _ here, sumOf_eraseIdx f found]
    omega

theorem Taken.coins (taken : Taken game goldCoins rooms) (inv : Invariant game) :
    Uses game 0 { player := { game.player with gold := game.player.gold + goldCoins.value }, rooms } := by
  have sums : ∀ f, carried f { player := { game.player with gold := game.player.gold + goldCoins.value }, rooms } =
      carried f game - f goldCoins := fun f => (congrArg _ (taken.items f)).trans (add_sub_assoc _ _ _).symm
  have worth : coinsOf goldCoins = 50 := rfl
  have value : goldCoins.value = 50 := rfl
  have balanced := inv.balanced
  have gold := balanced.gold
  have coins := balanced.coins
  refine ⟨⟨taken.plans, inv.inside, taken.keeps, inv.inventory, ?_⟩, sums _⟩
  rw [sums, sums, sums, worth, kills, taken.beaten]
  refine { balanced with items := ?_, attack := ?_, gold := ?_, coins := ?_ }
  · exact (Int.sub_zero _).trans_le balanced.items
  · exact (congrArg _ (Int.sub_zero _)).trans balanced.attack
  · simp only [value]
    omega
  · omega

theorem Taken.carries (taken : Taken game item rooms) (inv : Invariant game)
    (useful : item = healthPotion ∨ item = ironSword) :
    Uses game 0 { player := { game.player with inventory := game.player.inventory ++ [item] }, rooms } := by
  have sums : ∀ f, carried f { player := { game.player with inventory := game.player.inventory ++ [item] }, rooms } =
      carried f game := by
    intro f
    simp only [carried, sumOf_append, taken.items]
    omega
  refine ⟨⟨taken.plans, inv.inside, taken.keeps, ?_, ?_⟩, (sums _).trans (Int.sub_zero _).symm⟩
  · intro other member
    rcases List.mem_append.mp member with old | new
    · exact inv.inventory other old
    · obtain rfl := List.mem_singleton.mp new
      exact useful
  · rw [sums, sums, sums, kills, taken.beaten]
    exact { inv.balanced with }

end Picked

theorem pickupItem_keeps (number : Int) (inv : Invariant game) :
    ∃ next, pickupItem number game = some next ∧ Uses game 0 next := by
  obtain ⟨room, found, here, _⟩ := room_found inv.plans inv.inside
  rw [pickupItem, found]
  simp only [Option.bind_eq_bind, Option.bind_some]
  by_cases none : room.items.length = 0
  · rw [if_pos none]
    exact ⟨game, rfl, inv.stays⟩
  by_cases full : game.player.inventory.length ≥ maxItems
  · rw [if_neg none, if_pos full]
    exact ⟨game, rfl, inv.stays⟩
  by_cases chosen : number ≥ 1 ∧ number ≤ room.items.length
  · rw [if_neg none, if_neg full, if_pos chosen]
    have small : (number - 1).toNat < room.items.length := by omega
    have item_found := List.getElem?_eq_getElem small
    generalize room.items[(number - 1).toNat] = item at item_found
    have known := (inv.rooms room (List.mem_of_getElem? here)).items item (List.mem_of_getElem? item_found)
    have taken := setRoom_taken inv here item_found
    rw [item_found, Option.bind_some]
    by_cases named : item.name = "Gold Coins"
    · obtain rfl := coins_eq known named
      have back : (game.player.inventory ++ [goldCoins]).dropLast = game.player.inventory := List.dropLast_concat
      rw [if_pos named, back]
      exact ⟨_, rfl, taken.coins inv⟩
    · rw [if_neg named]
      exact ⟨_, rfl, taken.carries inv (not_coins known named)⟩
  · rw [if_neg none, if_neg full, if_neg chosen]
    exact ⟨game, rfl, inv.stays⟩

def numbered (number : Int) (game : Game) : Option Item :=
  if number ≥ 1 then game.player.inventory[(number - 1).toNat]? else none

section Used

variable {item : Item} {player : Player} {i : Nat}

theorem carried_used (found : game.player.inventory[i]? = some item)
    (same : player.inventory = game.player.inventory.eraseIdx i) (f : Item → Int) :
    carried f { game with player } = carried f game - f item := by
  simp only [carried, same, sumOf_eraseIdx f found]
  omega

theorem Invariant.used (inv : Invariant game) (found : game.player.inventory[i]? = some item)
    (same : player.inventory = game.player.inventory.eraseIdx i) (stays : player.currentRoom = game.player.currentRoom)
    (balanced : Balanced player (carried kept game - kept item) (carried Item.damageBonus game - item.damageBonus)
      (carried coinsOf game - coinsOf item) (kills game)) : Uses game item.damageBonus { game with player } := by
  have sums := carried_used found same
  refine ⟨⟨inv.plans, ?_, inv.rooms, ?_, ?_⟩, sums Item.damageBonus⟩
  · dsimp only
    rw [stays]
    exact inv.inside
  · intro other member
    dsimp only at member
    rw [same] at member
    exact inv.inventory other (List.mem_of_mem_eraseIdx member)
  · rw [sums, sums, sums]
    exact balanced

theorem Balanced.heals {items bonuses coins kills : Int} (balanced : Balanced player items bonuses coins kills)
    (inventory : List Item) :
    Balanced
      { player with
        hp := if player.hp + healthPotion.healAmount > player.maxHp then player.maxHp
          else player.hp + healthPotion.healAmount
        inventory }
      (items - kept healthPotion) (bonuses - healthPotion.damageBonus) (coins - coinsOf healthPotion) kills := by
  have kept_eq : kept healthPotion = 1 := rfl
  have bonus_eq : healthPotion.damageBonus = 0 := rfl
  have coins_eq : coinsOf healthPotion = 0 := rfl
  have few := balanced.items
  rw [kept_eq, bonus_eq, coins_eq, Int.sub_zero, Int.sub_zero]
  refine { balanced with items := by omega, hp := ?_ }
  dsimp only
  split
  · exact le_rfl
  · omega

theorem Balanced.equips {items bonuses coins kills : Int} (balanced : Balanced player items bonuses coins kills)
    (inventory : List Item) :
    Balanced { player with attack := player.attack + ironSword.damageBonus, inventory }
      (items - kept ironSword) (bonuses - ironSword.damageBonus) (coins - coinsOf ironSword) kills := by
  have kept_eq : kept ironSword = 1 := rfl
  have bonus_eq : ironSword.damageBonus = 5 := rfl
  have coins_eq : coinsOf ironSword = 0 := rfl
  have few := balanced.items
  have attack := balanced.attack
  rw [kept_eq, bonus_eq, coins_eq, Int.sub_zero]
  refine { balanced with items := by omega, attack := ?_ }
  dsimp only
  omega

end Used

theorem useItem_keeps (number : Int) (inv : Invariant game) : ∃ next, useItem number game = some next ∧
    Uses game ((numbered number game).elim 0 Item.damageBonus) next := by
  rw [useItem]
  simp only [Option.bind_eq_bind]
  by_cases none : game.player.inventory.length = 0
  · have absent : numbered number game = Option.none := by
      rw [numbered, List.length_eq_zero_iff.mp none]
      exact ite_self _
    rw [if_pos none, absent]
    exact ⟨game, rfl, inv.stays⟩
  by_cases chosen : number ≥ 1 ∧ number ≤ game.player.inventory.length
  · rw [if_neg none, if_pos chosen]
    have small : (number - 1).toNat < game.player.inventory.length := by omega
    have item_found := List.getElem?_eq_getElem small
    generalize game.player.inventory[(number - 1).toNat] = item at item_found
    have chosen_eq : numbered number game = some item := (if_pos chosen.1).trans item_found
    rw [item_found, Option.bind_some, chosen_eq]
    rcases inv.inventory item (List.mem_of_getElem? item_found) with rfl | rfl
    · have heals : healthPotion.healAmount > 0 := by decide
      rw [if_pos heals]
      exact ⟨_, rfl, inv.used item_found rfl rfl (inv.balanced.heals _)⟩
    · have heals : ¬ ironSword.healAmount > 0 := by decide
      have equips : ironSword.damageBonus > 0 := by decide
      rw [if_neg heals, if_pos equips]
      exact ⟨_, rfl, inv.used item_found rfl rfl (inv.balanced.equips _)⟩
  · have absent : numbered number game = Option.none := by
      unfold numbered
      split
      · exact List.getElem?_eq_none (by omega)
      · rfl
    rw [if_neg none, if_neg chosen, absent]
    exact ⟨game, rfl, inv.stays⟩

/-! ## Fights -/

theorem award_balanced {player : Player} {items bonuses coins kills expGain goldGain : Int}
    (balanced : Balanced player items bonuses coins kills) (exp : 20 ≤ expGain ∧ expGain ≤ 34)
    (gain : 10 ≤ goldGain ∧ goldGain ≤ 29) : Balanced (award expGain goldGain player) items bonuses coins (kills + 1) := by
  obtain ⟨few, attack, defense, maxHp, hp, level, experience, gold, coins⟩ := balanced
  unfold award
  by_cases enough : player.experience + expGain ≥ player.level * 50
  · rw [if_pos enough]
    refine ⟨few, ?_, ?_, ?_, ?_, ?_, ?_, ?_, coins⟩
    all_goals dsimp only; omega
  · rw [if_neg enough]
    refine ⟨few, attack, defense, maxHp, hp, ?_, ?_, ?_, coins⟩
    all_goals dsimp only; omega

section Blows

variable {room : Room} {turn : Turn}

def struck (turn : Turn) (game : Game) (room : Room) : Room :=
  { room with enemyHp := room.enemyHp - (game.player.attack + (turn.first % 5 : Nat)) }

def defeat (turn : Turn) (game : Game) (room : Room) : Game :=
  { player := award (20 + turn.second % 15 : Nat) (10 + turn.third % 20 : Nat) game.player
    rooms := setRoom game { struck turn game room with cleared := true } }

def retaliate (turn : Turn) (game : Game) (room : Room) : Game :=
  let damage := room.enemyAttack + (turn.second % 4 : Nat) - game.player.defense
  { player := { game.player with hp := game.player.hp - if damage < 1 then 1 else damage }
    rooms := setRoom game (struck turn game room) }

theorem attackEnemy_eq (found : roomAt game.rooms game.player.currentRoom = some room) (fighting : room.cleared = false)
    (alive : 0 < room.enemyHp) : attackEnemy turn game =
      some (if (struck turn game room).enemyHp ≤ 0 then defeat turn game room else retaliate turn game room) := by
  have busy : ¬ (room.cleared = true ∨ room.enemyHp ≤ 0) := by
    rintro (cleared | dead)
    · exact Bool.false_ne_true (fighting.symm.trans cleared)
    · omega
  rw [attackEnemy, found]
  simp only [Option.bind_eq_bind, Option.bind_some]
  rw [if_neg busy, apply_ite some]
  rfl

theorem award_same (expGain goldGain : Int) (player : Player) :
    (award expGain goldGain player).currentRoom = player.currentRoom ∧
      (award expGain goldGain player).inventory = player.inventory := by
  simp only [award]
  split
  · exact ⟨rfl, rfl⟩
  · exact ⟨rfl, rfl⟩

variable (here : game.rooms[game.player.currentRoom.toNat]? = some room)

include here

theorem total_setRoom (f : Item → Int) {new : Room} (same : new.items = room.items) :
    total (fun room => sumOf f room.items) (setRoom game new) = total (fun room => sumOf f room.items) game.rooms := by
  rw [setRoom, total_set _ here, same]
  exact Int.sub_add_cancel _ _

theorem kills_setRoom (fighting : room.cleared = false) (new : Room) :
    total defeated (setRoom game new) = kills game + defeated new := by
  have before : defeated room = 0 := if_neg fun both => Bool.false_ne_true (fighting.symm.trans both.2)
  rw [setRoom, total_set _ here, before, Int.sub_zero, kills]

theorem carried_defeat (f : Item → Int) : carried f (defeat turn game room) = carried f game :=
  congrArg₂ (· + ·) (congrArg (sumOf f) (award_same _ _ _).2) (total_setRoom here f rfl)

theorem carried_retaliate (f : Item → Int) : carried f (retaliate turn game room) = carried f game :=
  congrArg₂ (· + ·) rfl (total_setRoom here f rfl)

theorem kills_defeat (fighting : room.cleared = false) (strong : 0 < room.enemyAttack) :
    kills (defeat turn game room) = kills game + 1 := by
  have one : defeated { struck turn game room with cleared := true } = 1 := if_pos ⟨strong, rfl⟩
  exact (kills_setRoom here fighting _).trans (congrArg _ one)

theorem kills_retaliate (fighting : room.cleared = false) : kills (retaliate turn game room) = kills game := by
  have zero : defeated (struck turn game room) = 0 := if_neg fun both => Bool.false_ne_true (fighting.symm.trans both.2)
  exact (kills_setRoom here fighting _).trans ((congrArg _ zero).trans (Int.add_zero _))

theorem defeat_keeps (inv : Invariant game) (fighting : room.cleared = false) (strong : 0 < room.enemyAttack)
    (dead : (struck turn game room).enemyHp ≤ 0) : Invariant (defeat turn game room) := by
  have roomInv := inv.rooms room (List.mem_of_getElem? here)
  have same := award_same (20 + turn.second % 15 : Nat) (10 + turn.third % 20 : Nat) game.player
  refine ⟨plans_set inv.plans here rfl, ?_, ?_, ?_, ?_⟩
  · rw [defeat, same.1]
    exact inv.inside
  · exact rooms_set inv.rooms ⟨roomInv.items, fun _ => ⟨fun _ => dead, fun _ => rfl⟩, fun _ => dead⟩
  · rw [defeat, same.2]
    exact inv.inventory
  · rw [carried_defeat here, carried_defeat here, carried_defeat here, kills_defeat here fighting strong]
    exact award_balanced inv.balanced (by omega) (by omega)

theorem retaliate_keeps (inv : Invariant game) (fighting : room.cleared = false) (strong : 0 < room.enemyAttack)
    (lives : ¬ (struck turn game room).enemyHp ≤ 0) : Invariant (retaliate turn game room) := by
  have roomInv := inv.rooms room (List.mem_of_getElem? here)
  refine ⟨plans_set inv.plans here rfl, inv.inside, ?_, inv.inventory, ?_⟩
  · apply rooms_set inv.rooms
    refine ⟨roomInv.items, fun _ => ⟨fun cleared => ?_, fun none => absurd none lives⟩, fun weak => ?_⟩
    · exact absurd (fighting.symm.trans cleared) Bool.false_ne_true
    · exact absurd (lt_of_lt_of_le strong weak) (lt_irrefl _)
  · rw [carried_retaliate here, carried_retaliate here, carried_retaliate here, kills_retaliate here fighting]
    refine { inv.balanced with hp := ?_ }
    have hp := inv.balanced.hp
    dsimp only [retaliate]
    split <;> omega

end Blows

theorem attackEnemy_keeps (turn : Turn) (inv : Invariant game) :
    ∃ next, attackEnemy turn game = some next ∧ Uses game 0 next := by
  obtain ⟨room, found, here, _⟩ := room_found inv.plans inv.inside
  by_cases idle : room.cleared = true ∨ room.enemyHp ≤ 0
  · rw [attackEnemy, found]
    simp only [Option.bind_eq_bind, Option.bind_some]
    rw [if_pos idle]
    exact ⟨game, rfl, inv.stays⟩
  · obtain ⟨cleared, alive⟩ := not_or.mp idle
    have fighting := Bool.eq_false_iff.mpr cleared
    have strong : 0 < room.enemyAttack :=
      not_le.mp fun weak => alive ((inv.rooms room (List.mem_of_getElem? here)).none weak)
    rw [attackEnemy_eq found fighting (not_le.mp alive)]
    refine ⟨_, rfl, ?_⟩
    by_cases dead : (struck turn game room).enemyHp ≤ 0
    · rw [if_pos dead]
      exact ⟨defeat_keeps here inv fighting strong dead, (carried_defeat here _).trans (Int.sub_zero _).symm⟩
    · rw [if_neg dead]
      exact ⟨retaliate_keeps here inv fighting strong dead, (carried_retaliate here _).trans (Int.sub_zero _).symm⟩

/-! ## Turns -/

def itemUsed (turn : Turn) (game : Game) : Option Item :=
  if turn.choice = 6 then numbered turn.number game else none

theorem act_keeps (turn : Turn) (inv : Invariant game) :
    ∃ next, act turn game = some next ∧ Uses game ((itemUsed turn game).elim 0 Item.damageBonus) next := by
  unfold act itemUsed
  split
  · rw [if_neg (by omega)]
    exact movePlayer_keeps 0 inv
  · rw [if_neg (by omega)]
    exact movePlayer_keeps 1 inv
  · rw [if_neg (by omega)]
    exact movePlayer_keeps 2 inv
  · rw [if_neg (by omega)]
    exact movePlayer_keeps 3 inv
  · rw [if_neg (by omega)]
    exact pickupItem_keeps turn.number inv
  · rw [if_pos (by assumption)]
    exact useItem_keeps turn.number inv
  · rw [if_neg (by omega)]
    exact attackEnemy_keeps turn inv
  · rw [if_neg (by assumption)]
    exact ⟨game, rfl, inv.stays⟩

structure Agrees (game : Game) (status : Status) : Prop where
  victory : status = .victory ↔ ∃ lair, game.rooms[5]? = some lair ∧ lair.cleared = true
  playing : status = .playing → 0 < game.player.hp
  dead : status = .dead → game.player.hp ≤ 0

theorem lair_found (inv : Invariant game) : ∃ lair, roomAt game.rooms 5 = some lair ∧ game.rooms[5]? = some lair ∧
    (lair.cleared = true ↔ lair.enemyHp ≤ 0) := by
  obtain ⟨lair, found, here, planned⟩ := room_found inv.plans (i := 5) ⟨by decide, le_rfl⟩
  have strength : lair.enemyAttack = 20 := (congrArg (fun p => p.2.2.2.2) (Option.some.inj planned)).symm
  exact ⟨lair, found, here, (inv.rooms lair (List.mem_of_getElem? here)).enemy (by omega)⟩

theorem statusOf_agrees (choice : Int) (inv : Invariant game) :
    ∃ status, statusOf choice game = some status ∧ Agrees game status := by
  obtain ⟨lair, found, here, defeated⟩ := lair_found inv
  have cleared : (∃ lair, game.rooms[5]? = some lair ∧ lair.cleared = true) ↔ lair.cleared = true := by
    simp [here]
  rw [statusOf, found]
  refine ⟨_, rfl, ?_⟩
  by_cases won : lair.cleared = true ∧ lair.enemyHp ≤ 0
  · rw [if_pos won]
    exact ⟨by simp [cleared, won.1], nofun, nofun⟩
  · have unbeaten : ¬ lair.cleared = true := fun cleared => won ⟨cleared, defeated.mp cleared⟩
    rw [if_neg won]
    by_cases dead : game.player.hp ≤ 0
    · rw [if_pos dead]
      exact ⟨by simp [cleared, unbeaten], nofun, fun _ => dead⟩
    · rw [if_neg dead]
      split
      · exact ⟨by simp [cleared, unbeaten], nofun, nofun⟩
      · exact ⟨by simp [cleared, unbeaten], fun _ => by omega, nofun⟩

theorem carried_nonneg (f : Item → Int) (nonneg : ∀ item, Known item → 0 ≤ f item) (inv : Invariant game) :
    0 ≤ sumOf f game.player.inventory ∧ 0 ≤ total (fun room => sumOf f room.items) game.rooms := by
  have items : ∀ items : List Item, (∀ item ∈ items, Known item) → 0 ≤ sumOf f items := by
    intro items known
    apply List.sum_nonneg
    intro value member
    obtain ⟨item, found, rfl⟩ := List.mem_map.mp member
    exact nonneg item (known item found)
  constructor
  · exact items _ fun item member => (inv.inventory item member).imp_right Or.inl
  · apply List.sum_nonneg
    intro value member
    obtain ⟨room, found, rfl⟩ := List.mem_map.mp member
    exact items _ (inv.rooms room found).items

def bonusUsed (turn : Turn) (state : Game × Status) : Int :=
  if state.2 = .playing then (itemUsed turn state.1).elim 0 Item.damageBonus else 0

theorem step_keeps (turn : Turn) {state : Game × Status} (inv : Invariant state.1) (agrees : Agrees state.1 state.2) :
    ∃ next, step state turn = some next ∧ Uses state.1 (bonusUsed turn state) next.1 ∧ Agrees next.1 next.2 := by
  rw [step, bonusUsed]
  by_cases playing : state.2 = .playing
  · obtain ⟨next, acted, uses⟩ := act_keeps turn inv
    obtain ⟨status, found, agrees'⟩ := statusOf_agrees turn.choice uses.inv
    rw [if_pos playing, if_pos playing, acted]
    refine ⟨(next, status), ?_, uses, agrees'⟩
    simp [found]
  · rw [if_neg playing, if_neg playing]
    exact ⟨state, rfl, inv.stays, agrees⟩

def SwordUsed (turns : List Turn) : Prop :=
  ∃ before turn, before ++ [turn] <+: turns ∧
    ∃ game, play before = some (game, .playing) ∧ itemUsed turn game = some ironSword

theorem swordUsed_concat {turns : List Turn} {turn : Turn} {state : Game × Status} (ran : play turns = some state) :
    SwordUsed (turns ++ [turn]) ↔
      SwordUsed turns ∨ state.2 = .playing ∧ itemUsed turn state.1 = some ironSword := by
  constructor
  · rintro ⟨before, last, start, game, ran', used⟩
    rcases List.prefix_concat_iff.mp start with all | start
    · obtain ⟨rfl, rfl⟩ := List.append_inj' all rfl |>.imp_right List.singleton_inj.mp
      obtain rfl := Option.some.inj (ran.symm.trans ran')
      exact Or.inr ⟨rfl, used⟩
    · exact Or.inl ⟨before, last, start, game, ran', used⟩
  · rintro (⟨before, last, start, used⟩ | ⟨playing, used⟩)
    · exact ⟨before, last, start.trans (List.prefix_append _ _), used⟩
    · exact ⟨turns, turn, List.prefix_rfl, state.1, by rw [ran, ← playing], used⟩

theorem itemUsed_known (turn : Turn) (inv : Invariant game) {item : Item} (used : itemUsed turn game = some item) :
    item = healthPotion ∨ item = ironSword := by
  unfold itemUsed numbered at used
  split_ifs at used
  exact inv.inventory item (List.mem_of_getElem? used)

/-- The sword is the one item with a bonus. -/
theorem bonusUsed_eq (turn : Turn) {state : Game × Status} (inv : Invariant state.1) :
    (state.2 = .playing ∧ itemUsed turn state.1 = some ironSword) ∧ bonusUsed turn state = 5 ∨
      ¬ (state.2 = .playing ∧ itemUsed turn state.1 = some ironSword) ∧ bonusUsed turn state = 0 := by
  unfold bonusUsed
  by_cases playing : state.2 = .playing
  · rw [if_pos playing]
    cases used : itemUsed turn state.1 with
    | none => exact Or.inr ⟨nofun, rfl⟩
    | some item =>
        rcases itemUsed_known turn inv used with rfl | rfl
        · exact Or.inr ⟨fun both => absurd both.2 (by decide), rfl⟩
        · exact Or.inl ⟨⟨playing, rfl⟩, rfl⟩
  · exact Or.inr ⟨fun both => playing both.1, if_neg playing⟩

structure Played (turns : List Turn) (state : Game × Status) : Prop where
  inv : Invariant state.1
  agrees : Agrees state.1 state.2
  used : SwordUsed turns → carried Item.damageBonus state.1 = 0
  unused : ¬ SwordUsed turns → carried Item.damageBonus state.1 = 5

theorem play_keeps (turns : List Turn) : ∃ state, play turns = some state ∧ Played turns state := by
  induction turns using List.reverseRecOn with
  | nil =>
      refine ⟨_, rfl, init_invariant, ⟨?_, fun _ => by decide, nofun⟩, ?_, fun _ => by decide⟩
      · simp [initGame, initRooms]
      · rintro ⟨before, turn, start, _⟩
        have none := List.prefix_nil.mp start
        simp at none
  | append_singleton turns turn ih =>
      obtain ⟨state, ran, inv, agrees, used, unused⟩ := ih
      obtain ⟨next, stepped, uses, agrees'⟩ := step_keeps turn inv agrees
      have nonneg := carried_nonneg Item.damageBonus (by rintro item (rfl | rfl | rfl) <;> decide) uses.inv
      have ran' : play (turns ++ [turn]) = some next := by
        rw [play, List.foldlM_append, ← play, ran]
        simp [stepped]
      have few : 0 ≤ carried Item.damageBonus next.1 := Int.add_nonneg nonneg.1 nonneg.2
      have bonuses := uses.bonuses
      have concat := @swordUsed_concat turns turn state ran
      refine ⟨next, ran', uses.inv, agrees', ?_, ?_⟩
      · intro now
        by_cases before : SwordUsed turns
        · have zero := used before
          rcases bonusUsed_eq turn inv with ⟨_, five⟩ | ⟨_, none⟩
          · omega
          · omega
        · have zero := unused before
          rcases bonusUsed_eq turn inv with ⟨_, five⟩ | ⟨other, _⟩
          · omega
          · exact absurd (concat.mp now) (not_or.mpr ⟨before, other⟩)
      · intro never
        obtain ⟨before, other⟩ := not_or.mp fun now => never (concat.mpr now)
        have five := unused before
        rcases bonusUsed_eq turn inv with ⟨now, _⟩ | ⟨_, none⟩
        · exact absurd now other
        · omega

theorem kills_le (inv : Invariant game) : 0 ≤ kills game ∧ kills game ≤ 4 := by
  have each : ∀ room ∈ game.rooms, defeated room ≤ if (plan room).2.2.2.2 > 0 then 1 else 0 := by
    intro room _
    unfold defeated plan
    split
    · rename_i both
      rw [if_pos both.1]
    · split <;> decide
  have planned : total (fun room => if (plan room).2.2.2.2 > 0 then 1 else 0) game.rooms = 4 := by
    have sum : ∀ rooms, total (fun room => if (plan room).2.2.2.2 > 0 then 1 else 0) rooms =
        ((rooms.map plan).map fun p => if p.2.2.2.2 > 0 then (1 : Int) else 0).sum := by
      intro rooms
      rw [List.map_map]
      rfl
    rw [sum, inv.plans]
    decide
  constructor
  · apply List.sum_nonneg
    intro value member
    obtain ⟨room, _, rfl⟩ := List.mem_map.mp member
    unfold defeated
    split <;> decide
  · exact (total_le each).trans_eq planned

theorem inventory_length (inv : Invariant game) : game.player.inventory.length ≤ 3 := by
  have count : sumOf kept game.player.inventory = game.player.inventory.length := by
    have each : ∀ item ∈ game.player.inventory, kept item = 1 := by
      intro item member
      rcases inv.inventory item member with rfl | rfl
      · rfl
      · rfl
    rw [sumOf, List.map_congr_left each]
    simp
  have rest := (carried_nonneg kept (by rintro item (rfl | rfl | rfl) <;> decide) inv).2
  have items := inv.balanced.items
  unfold carried at items
  omega

/-- A reached state: nothing is read or written outside of an array, and the player is what the experience says. -/
structure Reached (turns : List Turn) (game : Game) (status : Status) : Prop where
  inside : 0 ≤ game.player.currentRoom ∧ game.player.currentRoom ≤ 5
  inventory : game.player.inventory.length ≤ 3
  level : game.player.level = game.player.experience / 50 + 1 ∧ game.player.level ≤ 3
  armed : SwordUsed turns → game.player.attack = 20 + 3 * (game.player.level - 1)
  unarmed : ¬ SwordUsed turns → game.player.attack = 15 + 3 * (game.player.level - 1)
  defense : game.player.defense = 5 + 2 * (game.player.level - 1)
  hp : game.player.hp ≤ game.player.maxHp ∧ game.player.maxHp = 100 + 20 * (game.player.level - 1)
  experience : 20 * kills game ≤ game.player.experience ∧ game.player.experience ≤ 34 * kills game
  gold : 20 + 10 * kills game ≤ game.player.gold ∧ game.player.gold ≤ 70 + 29 * kills game
  kills : 0 ≤ kills game ∧ kills game ≤ 4
  agrees : Agrees game status

theorem play_reaches (turns : List Turn) :
    ∃ game status, play turns = some (game, status) ∧ Reached turns game status := by
  obtain ⟨⟨game, status⟩, ran, inv, agrees, used, unused⟩ := play_keeps turns
  have balanced := inv.balanced
  have killed := kills_le inv
  have coins := carried_nonneg coinsOf (by rintro item (rfl | rfl | rfl) <;> decide) inv
  have some : 0 ≤ carried coinsOf game := Int.add_nonneg coins.1 coins.2
  obtain ⟨_, attack, defense, maxHp, hp, level, experience, gold, value⟩ := balanced
  refine ⟨game, status, ran, inv.inside, inventory_length inv, ?_, ?_, ?_, defense, ⟨hp, maxHp⟩, experience, ?_, killed,
    agrees⟩
  · dsimp only at *
    omega
  · intro now
    have none := used now
    dsimp only at *
    omega
  · intro never
    have five := unused never
    dsimp only at *
    omega
  · dsimp only at *
    omega

end KnowledgeAcquisition.Proof.Dungeon
