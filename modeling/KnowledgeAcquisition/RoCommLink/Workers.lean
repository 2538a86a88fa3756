import KnowledgeAcquisition.Library.Trace
import KnowledgeAcquisition.RoCommLink.Parser

/-!
# Datagrams as tasks of a worker pool

The read callback of `RoCommLink::start` pushes one task a datagram, `TaskQueue::worker_loop` lets the workers
take them, and each task feeds its bytes to the one parser of the interface. One `parse_byte` call is
one step; nothing keeps the byte loops of two tasks apart.
-/

namespace KnowledgeAcquisition.RoCommLink
open Library

structure TaskItem where
  executeAt : Nat
  bytes : List UInt8
  deriving DecidableEq, Repr

/-- A task some worker is running, with the number of bytes its loop has fed so far. -/
structure RunningTask where
  bytes : List UInt8
  fed : Nat
  deriving DecidableEq, Repr

structure Workers where
  threads : Nat
  parser : RoCommLinkParser := {}
  tasks : List TaskItem := []
  running : List RunningTask := []
  delivered : List Packet := []

namespace Workers

inductive Action where
  | push (now : Nat) (datagram : Datagram)
  | take (task : Nat)
  | feed (task : Nat)

/-- `_tasks.top()` is a task with the earliest deadline; which one of several is not specified. -/
def isTop (tasks : List TaskItem) (item : TaskItem) : Prop := ∀ other ∈ tasks, item.executeAt ≤ other.executeAt

instance (tasks : List TaskItem) (item : TaskItem) : Decidable (isTop tasks item) :=
  inferInstanceAs (Decidable (∀ other ∈ tasks, item.executeAt ≤ other.executeAt))

def deliver (result : ParseResult) : List Packet :=
  match result.status with
  | .complete => result.packet.toList
  | _ => []

def step (pool : Workers) : Action → Option Workers
  | .push now datagram =>
      some { pool with tasks := pool.tasks ++ [{ executeAt := now, bytes := datagram.bytes }] }
  | .take i => do
      let item ← pool.tasks[i]?
      if isTop pool.tasks item ∧ pool.running.length < pool.threads then
        some { pool with tasks := pool.tasks.eraseIdx i
                         running := pool.running ++ [{ bytes := item.bytes, fed := 0 }] }
      else none
  | .feed i => do
      let task ← pool.running[i]?
      let byte ← task.bytes[task.fed]?
      let (parser, result) := pool.parser.parseByte byte
      let running :=
        if task.fed + 1 < task.bytes.length then pool.running.set i { task with fed := task.fed + 1 }
        else pool.running.eraseIdx i
      some { pool with parser, running, delivered := pool.delivered ++ deliver result }

def run (pool : Workers) (actions : List Action) : Option Workers := Trace.run step pool actions

def arrived (sent : List Datagram) : Action → List Datagram
  | .push _ datagram => sent ++ [datagram]
  | _ => sent

end Workers

end KnowledgeAcquisition.RoCommLink
