import KnowledgeAcquisition.Library.Tally
import KnowledgeAcquisition.Sfd.Registry

/-!
# The registry under concurrent threads

`retain` and `release` of `linux/common/ipc/sfd/sfd_static_registry.h`, one atomic operation at a time:
every load, store, `compare_exchange_strong`, `fetch_add` and `fetch_sub` is a step of its own, and the
steps of all threads interleave.
-/

namespace KnowledgeAcquisition.Sfd
open Library

/-- The atomic operation that comes next, with the local variables that it uses: `fd`, and the loop variable
or the slot that the loop has settled on. -/
inductive Pc (n : Nat) where
  | idle
  | retainLoad (fd : Int) (i : Nat)
  | retainExchange (fd : Int) (i : Nat)
  | retainStore (fd : Int) (idx : Fin n)
  | retainAdd (fd : Int) (idx : Fin n)
  | releaseLoad (fd : Int) (i : Nat)
  | releaseSub (fd : Int) (idx : Fin n)
  | releaseStore (fd : Int) (idx : Fin n)
  deriving DecidableEq, Repr

structure Thread (n : Nat) where
  pc : Pc n := .idle
  held : Int → Nat := fun _ => 0
  closed : Int → Nat := fun _ => 0

namespace Thread

variable {n : Nat} [NeZero n]

def retained (thread : Thread n) (fd : Int) : Thread n :=
  { thread with pc := .idle, held := Function.update thread.held fd (thread.held fd + 1) }

def released (thread : Thread n) (fd : Int) (last : Bool) : Thread n :=
  { thread with
    pc := .idle
    held := Function.update thread.held fd (thread.held fd - 1)
    closed := if last then Function.update thread.closed fd (thread.closed fd + 1) else thread.closed }

/-- One atomic operation and what the thread does on its own until the next one. -/
def advance (registry : Registry n) (thread : Thread n) : Registry n × Thread n :=
  match thread.pc with
  | .idle => (registry, thread)
  | .retainLoad fd i =>
      let idx := Registry.slotAt n fd i
      let currentFd := (registry idx).fd
      if currentFd = fd then (registry, { thread with pc := .retainAdd fd idx })
      else if currentFd = -1 then (registry, { thread with pc := .retainExchange fd 0 })
      else if i + 1 < n then (registry, { thread with pc := .retainLoad fd (i + 1) })
      else (registry, { thread with pc := .retainExchange fd 0 })
  | .retainExchange fd i =>
      let idx := Registry.slotAt n fd i
      let slot := registry idx
      if slot.fd = -1 then
        (Function.update registry idx { slot with fd }, { thread with pc := .retainStore fd idx })
      else if slot.fd = fd then (registry, { thread with pc := .retainAdd fd idx })
      else if i + 1 < n then (registry, { thread with pc := .retainExchange fd (i + 1) })
      -- The table is full: the call returns, and the descriptor is not registered.
      else (registry, thread.retained fd)
  | .retainStore fd idx => (Function.update registry idx { registry idx with count := 1 }, thread.retained fd)
  | .retainAdd fd idx => (registry.add idx, thread.retained fd)
  | .releaseLoad fd i =>
      let idx := Registry.slotAt n fd i
      if (registry idx).fd = fd then (registry, { thread with pc := .releaseSub fd idx })
      else if i + 1 < n then (registry, { thread with pc := .releaseLoad fd (i + 1) })
      else (registry, thread.released fd false)
  | .releaseSub fd idx =>
      let slot := registry idx
      let registry := Function.update registry idx { slot with count := slot.count - 1 }
      if slot.count = 1 then (registry, { thread with pc := .releaseStore fd idx })
      else (registry, thread.released fd false)
  | .releaseStore fd idx =>
      (Function.update registry idx { registry idx with fd := -1 }, thread.released fd true)

end Thread

/-- The registry, the threads, and how often the outstanding retains of a descriptor have fallen from one to
zero. -/
structure Threads (n : Nat) (τ : Type) where
  registry : Registry n := Registry.new
  threads : τ → Thread n := fun _ => {}
  falls : Int → Nat := fun _ => 0

namespace Threads

variable {n : Nat} {τ : Type} [Fintype τ]

def outstanding (state : Threads n τ) (fd : Int) : Nat := tally (fun thread => thread.held fd) state.threads

def closed (state : Threads n τ) (fd : Int) : Nat := tally (fun thread => thread.closed fd) state.threads

inductive Action (τ : Type) where
  | retain (thread : τ) (fd : Int)
  | release (thread : τ) (fd : Int)
  | advance (thread : τ)
  deriving Repr

variable [NeZero n] [DecidableEq τ]

def setThread (state : Threads n τ) (t : τ) (registry : Registry n) (thread : Thread n) : Threads n τ :=
  let threads := Function.update state.threads t thread
  { registry, threads
    falls := fun fd => state.falls fd +
      if state.outstanding fd = 1 ∧ tally (fun thread => thread.held fd) threads = 0 then 1 else 0 }

/-- A thread that is inside no call may call `retain` with a descriptor number below `MaxSlots`, and `release`
with a descriptor that it has retained. -/
def step (state : Threads n τ) : Action τ → Option (Threads n τ)
  | .retain t fd =>
      let thread := state.threads t
      if thread.pc = .idle ∧ fd < n then
        if fd < 0 then some state
        else some (state.setThread t state.registry { thread with pc := .retainLoad fd 0 })
      else none
  | .release t fd =>
      let thread := state.threads t
      if thread.pc = .idle ∧ 0 < thread.held fd then
        some (state.setThread t state.registry { thread with pc := .releaseLoad fd 0 })
      else none
  | .advance t =>
      let thread := state.threads t
      if thread.pc = .idle then none
      else some (state.setThread t (thread.advance state.registry).1 (thread.advance state.registry).2)

def run (state : Threads n τ) (actions : List (Action τ)) : Option (Threads n τ) := Trace.run step state actions

end Threads

end KnowledgeAcquisition.Sfd
