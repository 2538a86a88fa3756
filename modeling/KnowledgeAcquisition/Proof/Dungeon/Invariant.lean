import KnowledgeAcquisition.Dungeon.Game
import KnowledgeAcquisition.Library.Trace
import Mathlib.Algebra.BigOperators.Group.List.Basic
import Mathlib.Tactic.IntervalCases
import Mathlib.Tactic.Linarith

/-!
# What no turn changes

Sums over the rooms and over the items that are still in the game, and how an action changes them. The state of the
player is given by the experience, and the experience and the gold lie between bounds for the number of defeated enemies.
-/

namespace KnowledgeAcquisition.Proof.Dungeon
open KnowledgeAcquisition.Dungeon Library

def total (f : Room → Int) (rooms : List Room) : Int := (rooms.map f).sum

def sumOf (f : Item → Int) (items : List Item) : Int := (items.map f).sum

def carried (f : Item → Int) (game : Game) : Int :=
  sumOf f game.player.inventory + total (fun room => sumOf f room.items) game.rooms

theorem total_set (f : Room → Int) {rooms : List Room} {i : Nat} {old : Room} (found : rooms[i]? = some old)
    (new : Room) : total f (rooms.set i new) = total f rooms - f old + f new := by
  induction rooms generalizing i with
  | nil => cases found
  | cons room rooms ih =>
      cases i with
      | zero =>
          obtain rfl := Option.some.inj found
          simp only [total, List.set_cons_zero, List.map_cons, List.sum_cons]
          omega
      | succ i =>
          have rest := ih found
          simp only [total, List.set_cons_succ, List.map_cons, List.sum_cons] at rest ⊢
          omega

theorem sumOf_eraseIdx (f : Item → Int) {items : List Item} {i : Nat} {item : Item} (found : items[i]? = some item) :
    sumOf f (items.eraseIdx i) = sumOf f items - f item := by
  induction items generalizing i with
  | nil => cases found
  | cons other items ih =>
      cases i with
      | zero =>
          obtain rfl := Option.some.inj found
          simp [sumOf]
      | succ i =>
          have rest := ih found
          simp only [sumOf, List.eraseIdx_cons_succ, List.map_cons, List.sum_cons] at rest ⊢
          omega

theorem sumOf_append (f : Item → Int) (items : List Item) (item : Item) :
    sumOf f (items ++ [item]) = sumOf f items + f item := by
  simp [sumOf]

theorem total_le {f g : Room → Int} {rooms : List Room} (less : ∀ room ∈ rooms, f room ≤ g room) :
    total f rooms ≤ total g rooms := by
  induction rooms with
  | nil => exact le_rfl
  | cons room rooms ih =>
      rw [List.forall_mem_cons] at less
      have rest := ih less.2
      simp only [total, List.map_cons, List.sum_cons] at rest ⊢
      omega

def plan (room : Room) : Int × Int × Int × Int × Int :=
  (room.north, room.south, room.east, room.west, room.enemyAttack)

def defeated (room : Room) : Int := if room.enemyAttack > 0 ∧ room.cleared then 1 else 0

def kills (game : Game) : Int := total defeated game.rooms

def coinsOf (item : Item) : Int := if item.name = "Gold Coins" then item.value else 0

def Known (item : Item) : Prop := item = healthPotion ∨ item = ironSword ∨ item = goldCoins

structure RoomInvariant (room : Room) : Prop where
  items : ∀ item ∈ room.items, Known item
  enemy : room.enemyAttack > 0 → (room.cleared ↔ room.enemyHp ≤ 0)
  none : room.enemyAttack ≤ 0 → room.enemyHp ≤ 0

def kept (item : Item) : Int := if item.name = "Gold Coins" then 0 else 1

/-- The player by the sums over the items that are kept, their bonuses and the coins, and by the defeated enemies. -/
structure Balanced (player : Player) (items bonuses coins kills : Int) : Prop where
  items : items ≤ 3
  attack : player.attack + bonuses = 20 + 3 * (player.level - 1)
  defense : player.defense = 5 + 2 * (player.level - 1)
  maxHp : player.maxHp = 100 + 20 * (player.level - 1)
  hp : player.hp ≤ player.maxHp
  level : 50 * (player.level - 1) ≤ player.experience ∧ player.experience < 50 * player.level
  experience : 20 * kills ≤ player.experience ∧ player.experience ≤ 34 * kills
  gold : 70 + 10 * kills ≤ player.gold + coins ∧ player.gold + coins ≤ 70 + 29 * kills
  coins : coins ≤ 50

structure Invariant (game : Game) : Prop where
  plans : game.rooms.map plan = initRooms.map plan
  inside : 0 ≤ game.player.currentRoom ∧ game.player.currentRoom ≤ 5
  rooms : ∀ room ∈ game.rooms, RoomInvariant room
  inventory : ∀ item ∈ game.player.inventory, item = healthPotion ∨ item = ironSword
  balanced : Balanced game.player (carried kept game) (carried Item.damageBonus game) (carried coinsOf game) (kills game)

theorem init_invariant : Invariant initGame := by
  have rooms : ∀ room ∈ initRooms, RoomInvariant room := by
    intro room member
    simp only [initRooms, List.mem_cons, List.not_mem_nil, or_false] at member
    rcases member with rfl | rfl | rfl | rfl | rfl | rfl | rfl | rfl <;>
      exact ⟨by simp [Known], by decide, by decide⟩
  constructor
  · rfl
  · decide
  · exact rooms
  · simp [initGame]
  · constructor <;> decide

section Rooms

variable {game : Game}

theorem room_found (plans : game.rooms.map plan = initRooms.map plan) {i : Int} (inside : 0 ≤ i ∧ i ≤ 5) :
    ∃ room, roomAt game.rooms i = some room ∧ game.rooms[i.toNat]? = some room ∧
      (initRooms.map plan)[i.toNat]? = some (plan room) := by
  have length : game.rooms.length = 8 := by
    have lengths := congrArg List.length plans
    rwa [List.length_map, List.length_map] at lengths
  have small : i.toNat < game.rooms.length := by omega
  have found := List.getElem?_eq_getElem small
  refine ⟨_, ?_, found, ?_⟩
  · rw [roomAt, if_neg (by omega), found]
  · rw [← plans, List.getElem?_map, found, Option.map_some]

theorem exits_inside {n : Nat} {room : Room} (small : n ≤ 5) (planned : (initRooms.map plan)[n]? = some (plan room)) :
    ∀ exit ∈ [room.north, room.south, room.east, room.west], exit = -1 ∨ 0 ≤ exit ∧ exit ≤ 5 := by
  intro exit member
  interval_cases n <;>
    simp only [initRooms, plan, List.map_cons, List.getElem?_cons_succ, List.getElem?_cons_zero, Option.some.injEq,
      Prod.mk.injEq, List.mem_cons, List.not_mem_nil, or_false] at planned member <;>
    omega

theorem plans_set (plans : game.rooms.map plan = initRooms.map plan) {n : Nat} {old new : Room}
    (found : game.rooms[n]? = some old) (same : plan new = plan old) :
    (game.rooms.set n new).map plan = initRooms.map plan := by
  obtain ⟨inside, here⟩ := List.getElem?_eq_some_iff.mp found
  rw [List.map_set, same, ← here, ← List.getElem_map plan (h := by rwa [List.length_map]), List.set_getElem_self, plans]

theorem rooms_set {rooms : List Room} (inv : ∀ room ∈ rooms, RoomInvariant room) {n : Nat} {new : Room}
    (here : RoomInvariant new) : ∀ room ∈ rooms.set n new, RoomInvariant room := by
  intro room member
  rcases List.mem_or_eq_of_mem_set member with old | rfl
  · exact inv room old
  · exact here

end Rooms

end KnowledgeAcquisition.Proof.Dungeon
