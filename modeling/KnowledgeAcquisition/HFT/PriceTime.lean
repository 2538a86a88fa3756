import KnowledgeAcquisition.HFT.OrderBook

/-!
# Price-time priority

The reference book: one list of resting orders a side, best price first and oldest first inside a
price. It is written from the trading rule, not from the matching engine, and knows of the pool only
that `capacity` orders can rest at a time.
-/

namespace KnowledgeAcquisition.HFT

structure Reference where
  bids : List Resting
  asks : List Resting
  deriving DecidableEq

namespace Reference

def side (book : Reference) : Side → List Resting
  | .buy => book.bids
  | .sell => book.asks

def setSide (book : Reference) : Side → List Resting → Reference
  | .buy, orders => { book with bids := orders }
  | .sell, orders => { book with asks := orders }

def new : Reference := ⟨[], []⟩

/-- Trades `qty` against a queue as long as its first order has an acceptable price. -/
def fill (accepts : Price → Bool) : Quantity → List Resting → Quantity × List Resting
  | qty, [] => (qty, [])
  | qty, order :: queue =>
      if qty = 0 ∨ accepts order.price = false then (qty, order :: queue)
      else if order.qty ≤ qty then fill accepts (qty - order.qty) queue
      else (0, { order with qty := order.qty - qty } :: queue)

/-- Enters an order behind every order of the same or a better price. -/
def place (side : Side) (order : Resting) : List Resting → List Resting
  | [] => [order]
  | first :: queue =>
      if before side order.price first.price then order :: first :: queue
      else first :: place side order queue

def size (book : Reference) : Nat := book.bids.length + book.asks.length

def limitOrder (capacity : Nat) (book : Reference) (id : OrderID) (price : Price) (qty : Quantity)
    (side : Side) : Reference :=
  let (residual, queue) := fill (OrderBook.crosses side price) qty (book.side side.opposite)
  let book := book.setSide side.opposite queue
  if residual = 0 ∨ capacity ≤ book.size then book
  else book.setSide side (place side ⟨id, price, residual, side⟩ (book.side side))

def cancelOrder (book : Reference) (id : OrderID) : Reference where
  bids := book.bids.filter (·.id ≠ id)
  asks := book.asks.filter (·.id ≠ id)

def exec (capacity : Nat) (book : Reference) : OrderBook.Call → Reference
  | .limitOrder id price qty side => book.limitOrder capacity id price qty side
  | .cancelOrder id => book.cancelOrder id

def run (capacity : Nat) (book : Reference) (calls : List OrderBook.Call) : Reference :=
  calls.foldl (exec capacity) book

end Reference

end KnowledgeAcquisition.HFT
