import KnowledgeAcquisition.Library.Loop
import Mathlib.Logic.Function.Basic

/-!
# Doubly linked lists with one link a node

`laboratory/c/unit/xor_solutions/save_memory_doubly_linklist.c`. A pointer and a `uintptr_t` are words of 64 bits, and
memory is a partial function from them. What `malloc` returns is an argument. A result `none` is a failed
assertion or an access to a node that is not there.
-/

namespace KnowledgeAcquisition.XorSolutions
open Library

abbrev Pointer := BitVec 64

structure Node where
  value : Int
  xored : Pointer
  deriving DecidableEq

abbrev Memory := Pointer → Option Node

def nodeCreate (memory : Memory) (node : Pointer) (value : Int) : Memory :=
  Function.update memory node (some { value, xored := 0 })

def setXored (memory : Memory) (node : Pointer) (xored : Pointer → Pointer) : Option Memory :=
  (memory node).map fun old => Function.update memory node (some { old with xored := xored old.xored })

structure LinkList where
  begin : Pointer
  «end» : Pointer
  deriving DecidableEq

structure State where
  memory : Memory
  ll : LinkList

def linklistAppend (s : State) (node : Pointer) (value : Int) : Option State :=
  if s.ll.end = 0 then
    if s.ll.begin = 0 then some { memory := nodeCreate s.memory node value, ll := { begin := node, «end» := node } }
    else none
  else do
    let memory ← setXored (nodeCreate s.memory node value) node fun _ => s.ll.end
    let memory ← setXored memory s.ll.end fun xored => xored ^^^ node
    some { memory, ll := { s.ll with «end» := node } }

def nodeNext (memory : Memory) (node prev : Pointer) : Option (Pointer × Pointer) :=
  (memory node).map fun read => (read.xored ^^^ prev, node)

structure Iteration where
  iter : Pointer
  prev : Pointer
  printed : List Int

def iteration (memory : Memory) (s : Iteration) : Option (Iteration ⊕ List Int) :=
  if s.iter = 0 then some (.inr s.printed)
  else do
    let node ← memory s.iter
    let (iter, prev) ← nodeNext memory s.iter s.prev
    some (.inl { iter, prev, printed := s.printed ++ [node.value] })

/-- What `for (iter = start; iter; iter = node_next(iter, &prev))` prints, from `prev` 0. -/
def visit (memory : Memory) (fuel : Nat) (start : Pointer) : Option (List Int) :=
  Loop.run (iteration memory) fuel { iter := start, prev := 0, printed := [] }

def appendAll (s : State) (appends : List (Pointer × Int)) : Option State :=
  appends.foldlM (fun s append => linklistAppend s append.1 append.2) s

end KnowledgeAcquisition.XorSolutions
