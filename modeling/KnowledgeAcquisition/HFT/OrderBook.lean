import KnowledgeAcquisition.Library.Loop
import KnowledgeAcquisition.Library.OrderedMap
import KnowledgeAcquisition.Library.Trace

/-!
# The limit order book

The pool of order nodes, the price levels and the order book of `laboratory/cpp/Solution/HFT/main.cpp`. A node
pointer is an index into the pool, `nullptr` is `none`. Prices, quantities and volumes are unsigned
32-bit words and identifiers unsigned 64-bit words, with their wrapping arithmetic.
-/

namespace KnowledgeAcquisition.HFT
open Library

abbrev OrderID := UInt64
abbrev Price := UInt32
abbrev Quantity := UInt32

inductive Side where
  | buy
  | sell
  deriving DecidableEq, Repr

def Side.opposite : Side → Side
  | .buy => .sell
  | .sell => .buy

structure Order (n : Nat) where
  id : OrderID := 0
  price : Price := 0
  qty : Quantity := 0
  side : Side := .buy
  prev : Option (Fin n) := none
  next : Option (Fin n) := none

structure OrderPool (n : Nat) where
  pool : Fin n → Order n
  freeList : Option (Fin n)

namespace OrderPool

variable {n : Nat}

def new (n : Nat) : OrderPool n where
  pool i := { next := if h : i.val + 1 < n then some ⟨i.val + 1, h⟩ else none }
  freeList := if h : 0 < n then some ⟨0, h⟩ else none

def modify (orders : OrderPool n) (node : Fin n) (f : Order n → Order n) : OrderPool n :=
  { orders with pool := Function.update orders.pool node (f (orders.pool node)) }

def allocate (orders : OrderPool n) : Option (Fin n × OrderPool n) :=
  match orders.freeList with
  | none => none
  | some node =>
      let orders := { orders with freeList := (orders.pool node).next }
      some (node, orders.modify node fun order => { order with prev := none, next := none })

def deallocate (orders : OrderPool n) (node : Fin n) : OrderPool n :=
  let orders := orders.modify node fun order => { order with next := orders.freeList }
  { orders with freeList := some node }

end OrderPool

structure Limit (n : Nat) where
  price : Price
  totalVolume : Quantity := 0
  head : Option (Fin n) := none
  tail : Option (Fin n) := none

namespace Limit

variable {n : Nat}

/-- `none` is the write `tail->next` through a null `tail`. -/
def append (limit : Limit n) (orders : OrderPool n) (order : Fin n) :
    Option (Limit n × OrderPool n) :=
  match limit.head with
  | none =>
      some ({ limit with head := some order, tail := some order,
                         totalVolume := limit.totalVolume + (orders.pool order).qty }, orders)
  | some _ =>
      match limit.tail with
      | none => none
      | some tail =>
          let orders := orders.modify tail fun last => { last with next := some order }
          let orders := orders.modify order fun added => { added with prev := some tail }
          some ({ limit with tail := some order,
                             totalVolume := limit.totalVolume + (orders.pool order).qty }, orders)

-- if (order->prev) order->prev->next = order->next;
def linkPrevToNext (orders : OrderPool n) (order : Fin n) : OrderPool n :=
  match (orders.pool order).prev with
  | none => orders
  | some before => orders.modify before fun node => { node with next := (orders.pool order).next }

-- if (order->next) order->next->prev = order->prev;
def linkNextToPrev (orders : OrderPool n) (order : Fin n) : OrderPool n :=
  match (orders.pool order).next with
  | none => orders
  | some after => orders.modify after fun node => { node with prev := (orders.pool order).prev }

def remove (limit : Limit n) (orders : OrderPool n) (order : Fin n) : Limit n × OrderPool n :=
  let limit := { limit with totalVolume := limit.totalVolume - (orders.pool order).qty }
  let orders := linkPrevToNext orders order
  let orders := linkNextToPrev orders order
  let limit := if some order = limit.head then { limit with head := (orders.pool order).next } else limit
  let limit := if some order = limit.tail then { limit with tail := (orders.pool order).prev } else limit
  (limit, orders)

end Limit

/-! ## The book -/

def before : Side → Price → Price → Prop
  | .buy, a, b => b < a
  | .sell, a, b => a < b

instance : (side : Side) → DecidableRel (before side)
  | .buy => fun a b => inferInstanceAs (Decidable (b < a))
  | .sell => fun a b => inferInstanceAs (Decidable (a < b))

instance (side : Side) : IsStrictTotalOrder Price (before side) where
  trichotomous a b := by cases side <;> simp only [before] <;> grind
  irrefl a := by cases side <;> simp only [before] <;> grind
  trans a b c := by cases side <;> simp only [before] <;> grind

abbrev LimitMap (n : Nat) (side : Side) := OrderedMap Price (Limit n) (before side)

structure OrderBook (n : Nat) where
  pool : OrderPool n
  orderMap : OrderID → Option (Fin n)
  sellLimits : LimitMap n .sell
  buyLimits : LimitMap n .buy

namespace OrderBook

variable {n : Nat}

def new (n : Nat) : OrderBook n where
  pool := OrderPool.new n
  orderMap := fun _ => none
  sellLimits := OrderedMap.empty
  buyLimits := OrderedMap.empty

def limits (book : OrderBook n) : (side : Side) → LimitMap n side
  | .buy => book.buyLimits
  | .sell => book.sellLimits

def setLimits (book : OrderBook n) : (side : Side) → LimitMap n side → OrderBook n
  | .buy, limits => { book with buyLimits := limits }
  | .sell, limits => { book with sellLimits := limits }

/-- What the inner loop works on: the level at the top of the opposite side, the resting order it
has reached and the unfilled rest of the incoming order. -/
structure Matching (n : Nat) where
  pool : OrderPool n
  orderMap : OrderID → Option (Fin n)
  level : Limit n
  resting : Option (Fin n)
  remaining : Quantity

def minQty (a b : Quantity) : Quantity := if b < a then b else a

def matchOrder (m : Matching n) : Option (Matching n ⊕ Matching n) :=
  match m.resting with
  | none => some (.inr m)
  | some order =>
      if m.remaining = 0 then some (.inr m)
      else
        -- read before the node can be recycled below
        let nextOrder := (m.pool.pool order).next
        let matchQty := minQty m.remaining (m.pool.pool order).qty
        let pool := m.pool.modify order fun resting => { resting with qty := resting.qty - matchQty }
        let level := { m.level with totalVolume := m.level.totalVolume - matchQty }
        let remaining := m.remaining - matchQty
        if (pool.pool order).qty = 0 then
          let (level, pool) := level.remove pool order
          let orderMap := Function.update m.orderMap (pool.pool order).id none
          some (.inl { pool := pool.deallocate order, orderMap, level, resting := nextOrder, remaining })
        else
          some (.inl { m with pool, level, resting := nextOrder, remaining })

def crosses : Side → Price → Price → Bool
  | .buy, price, bestSell => !(price < bestSell)
  | .sell, price, bestBuy => !(price > bestBuy)

def putLevel {side : Side} (limits : LimitMap n side) (price : Price) (level : Limit n) : LimitMap n side :=
  if level.head = none then limits.erase price else limits.assign price level

def sweepLevel (fuel : Nat) (price : Price) (side : Side) :
    Quantity × OrderBook n → Option ((Quantity × OrderBook n) ⊕ (Quantity × OrderBook n))
  | (remaining, book) =>
      if remaining = 0 then some (.inr (remaining, book))
      else match (book.limits side.opposite).first? with
        | none => some (.inr (remaining, book))
        | some (best, level) =>
            if !crosses side price best then some (.inr (remaining, book))
            else do
              let m ← Loop.run matchOrder fuel
                { pool := book.pool, orderMap := book.orderMap, level, resting := level.head, remaining }
              let limits := putLevel (book.limits side.opposite) best m.level
              let book := book.setLimits side.opposite limits
              some (.inl (m.remaining, { book with pool := m.pool, orderMap := m.orderMap }))

-- if (it == m_limits.end()) m_limits[price] = new Limit{price};
def openLevel {side : Side} (limits : LimitMap n side) (price : Price) : LimitMap n side :=
  match limits.find? price with
  | none => limits.assign price { price }
  | some _ => limits

def rest (book : OrderBook n) (id : OrderID) (price : Price) (remaining : Quantity) (side : Side) :
    Option (OrderBook n) :=
  match book.pool.allocate with
  | none => some book
  | some (newOrder, pool) => do
      let pool := pool.modify newOrder fun order => { order with id, price, qty := remaining, side }
      let limits := openLevel (book.limits side) price
      let limit ← limits.find? price
      let (limit, pool) ← limit.append pool newOrder
      let book := book.setLimits side (limits.assign price limit)
      some { book with pool, orderMap := Function.update book.orderMap id (some newOrder) }

def limitOrder (fuel : Nat) (book : OrderBook n) (id : OrderID) (price : Price) (qty : Quantity)
    (side : Side) : Option (OrderBook n) := do
  let (remaining, book) ← Loop.run (sweepLevel fuel price side) fuel (qty, book)
  if remaining = 0 then some book else book.rest id price remaining side

def cancelOrder (book : OrderBook n) (id : OrderID) : OrderBook n :=
  match book.orderMap id with
  | none => book
  | some order =>
      let price := (book.pool.pool order).price
      let side := (book.pool.pool order).side
      let book := match (book.limits side).find? price with
        | none => book
        | some limit =>
            let (limit, pool) := limit.remove book.pool order
            { book.setLimits side (putLevel (book.limits side) price limit) with pool }
      { book with orderMap := Function.update book.orderMap id none, pool := book.pool.deallocate order }

inductive Call where
  | limitOrder (id : OrderID) (price : Price) (qty : Quantity) (side : Side)
  | cancelOrder (id : OrderID)
  deriving DecidableEq, Repr

def exec (fuel : Nat) (book : OrderBook n) : Call → Option (OrderBook n)
  | .limitOrder id price qty side => book.limitOrder fuel id price qty side
  | .cancelOrder id => some (book.cancelOrder id)

def run (fuel : Nat) (book : OrderBook n) (calls : List Call) : Option (OrderBook n) :=
  Trace.run (exec fuel) book calls

end OrderBook

structure Resting where
  id : OrderID
  price : Price
  qty : Quantity
  side : Side
  deriving DecidableEq, Repr

variable {n : Nat}

def Order.resting (order : Order n) : Resting := ⟨order.id, order.price, order.qty, order.side⟩

def OrderPool.follow (orders : OrderPool n) : Nat → Option (Fin n) → List (Fin n)
  | 0, _ => []
  | _ + 1, none => []
  | bound + 1, some node => node :: orders.follow bound (orders.pool node).next

def OrderBook.resting (book : OrderBook n) (side : Side) : List Resting :=
  (book.limits side).entries.flatMap fun entry =>
    (book.pool.follow n entry.2.head).map fun node => (book.pool.pool node).resting

def OrderBook.restingNodes (book : OrderBook n) (side : Side) : List (Fin n) :=
  (book.limits side).entries.flatMap fun entry => book.pool.follow n entry.2.head

end KnowledgeAcquisition.HFT
