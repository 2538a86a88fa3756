import Mathlib.Data.List.Basic

/-!
# The dungeon crawler

`laboratory/c/collection/dungeon/dungeon.c` without what it prints. What `get_input` returns and what `rand` returns during
a turn are inputs of the turn, an array with a count is a list, and a result `none` is an access to a room or an item that
is not there.
-/

namespace KnowledgeAcquisition.Dungeon

def maxItems : Nat := 10

structure Item where
  name : String
  healAmount : Int
  damageBonus : Int
  value : Int
  deriving DecidableEq

structure Player where
  hp : Int
  maxHp : Int
  attack : Int
  defense : Int
  gold : Int
  level : Int
  experience : Int
  inventory : List Item
  currentRoom : Int
  deriving DecidableEq

/-- `-1` is no exit. -/
structure Room where
  north : Int
  south : Int
  east : Int
  west : Int
  items : List Item
  enemyHp : Int
  enemyAttack : Int
  cleared : Bool
  deriving DecidableEq

structure Game where
  player : Player
  rooms : List Room
  deriving DecidableEq

/-- What `get_input` returns for the choice and for the number of an item, and what `rand` returns. -/
structure Turn where
  choice : Int
  number : Int
  first : Nat
  second : Nat
  third : Nat

inductive Status where
  | playing
  | quit
  | dead
  | victory
  deriving DecidableEq

def healthPotion : Item := { name := "Health Potion", healAmount := 30, damageBonus := 0, value := 10 }
def ironSword : Item := { name := "Iron Sword", healAmount := 0, damageBonus := 5, value := 25 }
def goldCoins : Item := { name := "Gold Coins", healAmount := 0, damageBonus := 0, value := 50 }

/-- The last two of the `MAX_ROOMS` rooms are never set up, so that their exits are room 0. -/
def initRooms : List Room :=
  [{ north := 1, south := -1, east := 2, west := -1, items := [], enemyHp := 0, enemyAttack := 0, cleared := true },
    { north := -1, south := 0, east := 3, west := -1, items := [], enemyHp := 30, enemyAttack := 8, cleared := false },
    { north := 3, south := -1, east := -1, west := 0, items := [ironSword, healthPotion], enemyHp := 0, enemyAttack := 0,
      cleared := true },
    { north := 4, south := 2, east := -1, west := 1, items := [], enemyHp := 20, enemyAttack := 6, cleared := false },
    { north := -1, south := 3, east := 5, west := -1, items := [goldCoins], enemyHp := 50, enemyAttack := 12,
      cleared := false },
    { north := -1, south := -1, east := -1, west := 4, items := [], enemyHp := 100, enemyAttack := 20, cleared := false },
    { north := 0, south := 0, east := 0, west := 0, items := [], enemyHp := 0, enemyAttack := 0, cleared := false },
    { north := 0, south := 0, east := 0, west := 0, items := [], enemyHp := 0, enemyAttack := 0, cleared := false }]

def initGame : Game :=
  { player :=
      { hp := 100, maxHp := 100, attack := 15, defense := 5, gold := 20, level := 1, experience := 0,
        inventory := [healthPotion], currentRoom := 0 }
    rooms := initRooms }

def roomAt (rooms : List Room) (i : Int) : Option Room := if i < 0 then none else rooms[i.toNat]?

def newRoomOf (room : Room) : Nat → Int
  | 0 => room.north
  | 1 => room.south
  | 2 => room.east
  | 3 => room.west
  | _ => -1

def movePlayer (direction : Nat) (game : Game) : Option Game := do
  let room ← roomAt game.rooms game.player.currentRoom
  let newRoom := newRoomOf room direction
  if newRoom = -1 then some game
  else do
    let _ ← roomAt game.rooms newRoom
    some { game with player := { game.player with currentRoom := newRoom } }

def setRoom (game : Game) (room : Room) : List Room := game.rooms.set game.player.currentRoom.toNat room

def pickupItem (number : Int) (game : Game) : Option Game := do
  let player := game.player
  let room ← roomAt game.rooms player.currentRoom
  if room.items.length = 0 then some game
  else if player.inventory.length ≥ maxItems then some game
  else if number ≥ 1 ∧ number ≤ room.items.length then do
    let item ← room.items[(number - 1).toNat]?
    let player := { player with inventory := player.inventory ++ [item] }
    -- Gold is written to the inventory as well, and the count taken back.
    let player :=
      if item.name = "Gold Coins" then
        { player with gold := player.gold + item.value, inventory := player.inventory.dropLast }
      else player
    some { player, rooms := setRoom game { room with items := room.items.eraseIdx (number - 1).toNat } }
  else some game

def useItem (number : Int) (game : Game) : Option Game := do
  let player := game.player
  if player.inventory.length = 0 then some game
  else if number ≥ 1 ∧ number ≤ player.inventory.length then do
    let item ← player.inventory[(number - 1).toNat]?
    let player :=
      if item.healAmount > 0 then
        let hp := player.hp + item.healAmount
        { player with hp := if hp > player.maxHp then player.maxHp else hp }
      else if item.damageBonus > 0 then { player with attack := player.attack + item.damageBonus }
      else player
    some { game with player := { player with inventory := player.inventory.eraseIdx (number - 1).toNat } }
  else some game

def award (expGain goldGain : Int) (player : Player) : Player :=
  let player := { player with experience := player.experience + expGain, gold := player.gold + goldGain }
  if player.experience ≥ player.level * 50 then
    { player with
      level := player.level + 1
      maxHp := player.maxHp + 20
      hp := player.maxHp + 20
      attack := player.attack + 3
      defense := player.defense + 2 }
  else player

def attackEnemy (turn : Turn) (game : Game) : Option Game := do
  let player := game.player
  let room ← roomAt game.rooms player.currentRoom
  if room.cleared ∨ room.enemyHp ≤ 0 then some game
  else
    let playerDamage := player.attack + (turn.first % 5 : Nat)
    let room := { room with enemyHp := room.enemyHp - playerDamage }
    if room.enemyHp ≤ 0 then
      let expGain : Nat := 20 + turn.second % 15
      let goldGain : Nat := 10 + turn.third % 20
      some { player := award expGain goldGain player, rooms := setRoom game { room with cleared := true } }
    else
      let enemyDamage := room.enemyAttack + (turn.second % 4 : Nat) - player.defense
      let enemyDamage := if enemyDamage < 1 then 1 else enemyDamage
      some { player := { player with hp := player.hp - enemyDamage }, rooms := setRoom game room }

def act (turn : Turn) (game : Game) : Option Game :=
  match turn.choice with
  | 1 => movePlayer 0 game
  | 2 => movePlayer 1 game
  | 3 => movePlayer 2 game
  | 4 => movePlayer 3 game
  | 5 => pickupItem turn.number game
  | 6 => useItem turn.number game
  | 8 => attackEnemy turn game
  | _ => some game

def statusOf (choice : Int) (game : Game) : Option Status := do
  let lair ← roomAt game.rooms 5
  some (if lair.cleared ∧ lair.enemyHp ≤ 0 then .victory
    else if game.player.hp ≤ 0 then .dead
    else if choice = 9 then .quit
    else .playing)

def step (state : Game × Status) (turn : Turn) : Option (Game × Status) :=
  if state.2 = .playing then do
    let game ← act turn state.1
    let status ← statusOf turn.choice game
    some (game, status)
  else some state

def play (turns : List Turn) : Option (Game × Status) := turns.foldlM step (initGame, .playing)

end KnowledgeAcquisition.Dungeon
