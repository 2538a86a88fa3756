import KnowledgeAcquisition.RoCommLink.Node

/-!
# The command tracker and its promises

`CommandTracker` of `core/service/command_tracker.h` once more, with the promise that every transaction carries: a
promise and its future share a state, out of which a future is taken at most once and into which a
value is put at most once. Times are ticks of the clock, of which `tick` make a millisecond.
-/

namespace KnowledgeAcquisition.RoCommLink

inductive FutureErrc where
  | futureAlreadyRetrieved
  | promiseAlreadySatisfied
  deriving DecidableEq, Repr

structure SharedState where
  retrieved : Bool := false
  value : Option CommandResult := none
  deriving DecidableEq, Repr

namespace PromiseTracker

structure PromiseTransaction where
  seq : UInt16
  packet : Packet
  promise : Nat
  lastSent : Nat
  retries : UInt8 := 0
  deriving DecidableEq, Repr

/-- What an operation does to a promise: it comes with a new transaction, its packet is sent again, or it is set. -/
inductive PromiseEvent where
  | tracked (promise time : Nat) (packet : Packet)
  | retransmitted (promise time : Nat) (packet : Packet)
  | settled (promise : Nat) (seq : UInt16) (result : CommandResult)
  deriving DecidableEq, Repr

inductive Operation where
  | track (now : Nat) (seq : UInt16) (pkt : Packet)
  | resolve (seq : UInt16) (result : CommandResult)
  | checkTimeouts (now : Nat)
  deriving DecidableEq, Repr

end PromiseTracker

structure PromiseTracker where
  transactions : List PromiseTracker.PromiseTransaction := []
  shared : Nat → SharedState := fun _ => {}
  created : Nat := 0

namespace PromiseTracker

def getFuture (shared : Nat → SharedState) (promise : Nat) : Except FutureErrc (Nat → SharedState) :=
  if (shared promise).retrieved then .error .futureAlreadyRetrieved
  else .ok (Function.update shared promise { shared promise with retrieved := true })

def setValue (shared : Nat → SharedState) (promise : Nat) (result : CommandResult) :
    Except FutureErrc (Nat → SharedState) :=
  match (shared promise).value with
  | some _ => .error .promiseAlreadySatisfied
  | none => .ok (Function.update shared promise { shared promise with value := some result })

def find (tracker : PromiseTracker) (seq : UInt16) : Option PromiseTransaction := tracker.transactions.find? (·.seq = seq)

/-- `_transactions.emplace`: the entry of the key, which is the new one only if there was none. -/
def emplace (tracker : PromiseTracker) (transaction : PromiseTransaction) : PromiseTracker × PromiseTransaction :=
  match tracker.find transaction.seq with
  | some present => (tracker, present)
  | none => ({ tracker with transactions := tracker.transactions ++ [transaction] }, transaction)

def track (tracker : PromiseTracker) (now : Nat) (seq : UInt16) (pkt : Packet) :
    Except FutureErrc (PromiseTracker × Nat) := do
  let transaction := { seq, packet := pkt, promise := tracker.created, lastSent := now }
  let (tracker, it) := emplace { tracker with created := tracker.created + 1 } transaction
  let shared ← getFuture tracker.shared it.promise
  .ok ({ tracker with shared }, it.promise)

def resolve (tracker : PromiseTracker) (seq : UInt16) (result : CommandResult) :
    Except FutureErrc (PromiseTracker × List PromiseEvent) :=
  match tracker.find seq with
  | none => .ok (tracker, [])
  | some it => do
      let shared ← setValue tracker.shared it.promise result
      .ok ({ tracker with shared, transactions := tracker.transactions.filter (·.seq ≠ seq) },
        [.settled it.promise seq result])

def timeoutDuration (tick : Nat) : Nat := 500 * tick
def maxRetries : UInt8 := 3

def Due (tick now : Nat) (transaction : PromiseTransaction) : Prop := now - transaction.lastSent > timeoutDuration tick

instance (tick now : Nat) (transaction : PromiseTransaction) : Decidable (Due tick now transaction) :=
  inferInstanceAs (Decidable (_ > _))

def sweep (tick now : Nat) (shared : Nat → SharedState) :
    List PromiseTransaction → Except FutureErrc ((Nat → SharedState) × List PromiseTransaction × List PromiseEvent)
  | [] => .ok (shared, [], [])
  | it :: rest =>
      if Due tick now it then
        if it.retries < maxRetries then do
          let (shared, kept, events) ← sweep tick now shared rest
          .ok (shared, { it with retries := it.retries + 1, lastSent := now } :: kept,
            .retransmitted it.promise now it.packet :: events)
        else do
          let shared ← setValue shared it.promise .failed
          let (shared, kept, events) ← sweep tick now shared rest
          .ok (shared, kept, .settled it.promise it.seq .failed :: events)
      else do
        let (shared, kept, events) ← sweep tick now shared rest
        .ok (shared, it :: kept, events)

def checkTimeouts (tick : Nat) (tracker : PromiseTracker) (now : Nat) :
    Except FutureErrc (PromiseTracker × List PromiseEvent) := do
  let (shared, transactions, events) ← sweep tick now tracker.shared tracker.transactions
  .ok ({ tracker with shared, transactions }, events)

def exec (tick : Nat) (tracker : PromiseTracker) : Operation → Except FutureErrc (PromiseTracker × List PromiseEvent)
  | .track now seq pkt => do
      let (tracker, future) ← tracker.track now seq pkt
      .ok (tracker, [.tracked future now pkt])
  | .resolve seq result => tracker.resolve seq result
  | .checkTimeouts now => tracker.checkTimeouts tick now

structure Entry where
  operation : Operation
  before : List PromiseTransaction
  after : List PromiseTransaction
  events : List PromiseEvent := []
  thrown : Option FutureErrc := none

structure Timeline where
  tracker : PromiseTracker := {}
  log : List Entry := []

/-- An operation that throws has changed nothing: the transaction it made up is gone with its promise. -/
def step (tick : Nat) (timeline : Timeline) (operation : Operation) : Timeline :=
  match timeline.tracker.exec tick operation with
  | .ok (tracker, events) =>
      { tracker
        log := timeline.log ++
          [{ operation, before := timeline.tracker.transactions, after := tracker.transactions, events }] }
  | .error thrown =>
      { timeline with log := timeline.log ++
          [{ operation, before := timeline.tracker.transactions, after := timeline.tracker.transactions,
             thrown := some thrown }] }

def run (tick : Nat) (timeline : Timeline) (operations : List Operation) : Timeline :=
  operations.foldl (step tick) timeline

end PromiseTracker

end KnowledgeAcquisition.RoCommLink
