import KnowledgeAcquisition.Library.Trace
import Mathlib.Data.List.Perm.Basic
import Mathlib.Tactic.Common

/-!
# The task queue

`TaskQueue` of `core/common/task_queue.cpp` with any number of workers, producers and callers of `shutdown`. A
critical section under the mutex is one step: the body of `push`, `push_delayed` or `shutdown`, or one
pass of the inner loop of `worker_loop`, up to the wait, the `break` or the `return`. Times are ticks of
the steady clock, which are nanoseconds.
-/

namespace KnowledgeAcquisition.RoCommLink
open Library

namespace TaskQueue

variable {Func : Type}

/-- A task, with the number of the call that offered it: two calls may offer equal functions. -/
structure TaskItem (Func : Type) where
  ticket : Nat
  func : Func
  executeAt : Int

/-- Where a worker is: before a pass of the inner loop, in `_cv.wait` or `_cv.wait_until`, in the callback of a
task outside the lock, or behind the `return`. -/
inductive Phase (Func : Type) where
  | entering
  | waiting
  | running (task : TaskItem Func)
  | returned

structure Taken (Func : Type) where
  task : TaskItem Func
  worker : Nat
  time : Int
  queued : List (TaskItem Func)

end TaskQueue

/-- The queue and its workers, and what has happened: the tasks that entered the queue, those turned away after
the shutdown, and those taken. -/
structure TaskQueue (Func : Type) where
  tasks : List (TaskQueue.TaskItem Func) := []
  workers : List (TaskQueue.Phase Func)
  isShutdown : Bool := false
  clock : Int
  accepted : List (TaskQueue.TaskItem Func) := []
  rejected : List (TaskQueue.TaskItem Func) := []
  taken : List (TaskQueue.Taken Func) := []

namespace TaskQueue

variable {Func : Type}

def new (threads : Nat) (clock : Int) : TaskQueue Func where
  workers := List.replicate threads .entering
  clock

def milliseconds (count : Int) : Int := count * 1000000

def offered (queue : TaskQueue Func) : Nat := queue.accepted.length + queue.rejected.length

def offer (queue : TaskQueue Func) (func : Func) (executeAt : Int) : TaskQueue Func :=
  if queue.isShutdown then
    { queue with rejected := queue.rejected ++ [{ ticket := queue.offered, func, executeAt }] }
  else
    { queue with tasks := queue.tasks ++ [{ ticket := queue.offered, func, executeAt }]
                 accepted := queue.accepted ++ [{ ticket := queue.offered, func, executeAt }] }

def push (queue : TaskQueue Func) (f : Func) : TaskQueue Func := queue.offer f queue.clock

def pushDelayed (queue : TaskQueue Func) (f : Func) (delay : Int) : TaskQueue Func :=
  queue.offer f (queue.clock + milliseconds delay)

def shutdown (queue : TaskQueue Func) : TaskQueue Func :=
  if queue.isShutdown then queue else { queue with isShutdown := true }

/-- What `_tasks.top()` may be: a task with the earliest deadline. -/
def IsTop (tasks : List (TaskItem Func)) (item : TaskItem Func) : Prop :=
  ∀ other ∈ tasks, item.executeAt ≤ other.executeAt

instance (tasks : List (TaskItem Func)) (item : TaskItem Func) : Decidable (IsTop tasks item) :=
  inferInstanceAs (Decidable (∀ other ∈ tasks, item.executeAt ≤ other.executeAt))

def enter (queue : TaskQueue Func) (worker : Nat) (phase : Phase Func) : TaskQueue Func :=
  { queue with workers := queue.workers.set worker phase }

def pass (queue : TaskQueue Func) (worker top : Nat) : Option (TaskQueue Func) :=
  if queue.isShutdown && queue.tasks.isEmpty then some (queue.enter worker .returned)
  else if queue.tasks.isEmpty then some (queue.enter worker .waiting)
  else
    match queue.tasks[top]? with
    | none => none
    | some item =>
        if ¬IsTop queue.tasks item then none
        else if queue.clock ≥ item.executeAt then
          some { queue.enter worker (.running item) with
                  tasks := queue.tasks.eraseIdx top
                  taken := queue.taken ++ [{ task := item, worker, time := queue.clock, queued := queue.tasks }] }
        else some (queue.enter worker .waiting)

inductive Action (Func : Type) where
  | tick (now : Int)
  | push (f : Func)
  | pushDelayed (f : Func) (delay : Int)
  | shutdown
  | pass (worker top : Nat)
  | wake (worker : Nat)
  | finish (worker : Nat)

def step (queue : TaskQueue Func) : Action Func → Option (TaskQueue Func)
  | .tick now => if queue.clock ≤ now then some { queue with clock := now } else none
  | .push f => some (queue.push f)
  | .pushDelayed f delay => some (queue.pushDelayed f delay)
  | .shutdown => some queue.shutdown
  | .pass worker top =>
      match queue.workers[worker]? with
      | some .entering => queue.pass worker top
      | _ => none
  | .wake worker =>
      match queue.workers[worker]? with
      | some .waiting => some (queue.enter worker .entering)
      | _ => none
  | .finish worker =>
      match queue.workers[worker]? with
      | some (.running _) => some (queue.enter worker .entering)
      | _ => none

def run (queue : TaskQueue Func) (actions : List (Action Func)) : Option (TaskQueue Func) :=
  Trace.run step queue actions

end TaskQueue

end KnowledgeAcquisition.RoCommLink
