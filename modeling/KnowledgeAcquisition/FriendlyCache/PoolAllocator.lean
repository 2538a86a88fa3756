import Mathlib

/-!
# A cache over two fixed pools

`laboratory/cpp/FriendlyCache/PoolAllocator.h`. A pool is a row of blocks of which the unused ones are linked
through their own storage; `std::list` and `std::unordered_map` take one block a node from it. Of the
containers a node is what matters: a list is the order of its nodes, a map says which node belongs to
a key, and the elements are in the blocks. What the source leaves undefined is a fault.
-/

namespace KnowledgeAcquisition.FriendlyCache

inductive Fault where
  | badAlloc
  | undefined
  deriving DecidableEq, Repr

/-- The storage of a block: the `Node` of the free list, or an element that was constructed there. -/
inductive MemoryBlock (T : Type) where
  | node (next : Option Nat)
  | object (value : T)

/-- A block of the pool, or memory of `::operator new`. -/
inductive Pointer where
  | block (index : Nat)
  | heap
  deriving DecidableEq, Repr

structure PoolAllocator (T : Type) where
  memory : Nat → MemoryBlock T := fun _ => .node none
  freeList : Option Nat := none

namespace PoolAllocator

variable {T : Type}

def link (pool : PoolAllocator T) (i : Nat) : PoolAllocator T where
  memory := Function.update pool.memory i (.node pool.freeList)
  freeList := some i

def initPool (blockCount : Nat) : PoolAllocator T := (List.range blockCount).foldl link {}

def allocate (pool : PoolAllocator T) (n : Nat) : Except Fault (Pointer × PoolAllocator T) :=
  if n > 1 then .ok (.heap, pool)
  else
    match pool.freeList with
    | none => .error .badAlloc
    | some i =>
        match pool.memory i with
        | .node next => .ok (.block i, { pool with freeList := next })
        | .object _ => .error .undefined

def deallocate (pool : PoolAllocator T) (p : Pointer) (n : Nat) : PoolAllocator T :=
  if n > 1 then pool
  else
    match p with
    | .block i => pool.link i
    | .heap => pool

def construct (pool : PoolAllocator T) (p : Pointer) (value : T) : PoolAllocator T :=
  match p with
  | .block i => { pool with memory := Function.update pool.memory i (.object value) }
  | .heap => pool

def read (pool : PoolAllocator T) (p : Pointer) : Except Fault T :=
  match p with
  | .block i =>
      match pool.memory i with
      | .object value => .ok value
      | .node _ => .error .undefined
  | .heap => .error .undefined

end PoolAllocator

structure CacheList (Key Value : Type) where
  nodes : List Pointer := []
  pool : PoolAllocator (Key × Value)

namespace CacheList

variable {Key Value : Type}

def size (list : CacheList Key Value) : Nat := list.nodes.length

def begin (list : CacheList Key Value) : Except Fault Pointer :=
  match list.nodes.head? with
  | none => .error .undefined
  | some node => .ok node

def back (list : CacheList Key Value) : Except Fault (Key × Value) :=
  match list.nodes.getLast? with
  | none => .error .undefined
  | some node => list.pool.read node

def popBack (list : CacheList Key Value) : Except Fault (CacheList Key Value) :=
  match list.nodes.getLast? with
  | none => .error .undefined
  | some node => .ok { nodes := list.nodes.dropLast, pool := list.pool.deallocate node 1 }

def emplaceFront (list : CacheList Key Value) (key : Key) (value : Value) : Except Fault (CacheList Key Value) := do
  let (node, pool) ← list.pool.allocate 1
  .ok { nodes := node :: list.nodes, pool := pool.construct node (key, value) }

def splice (list : CacheList Key Value) (it : Pointer) : Except Fault (CacheList Key Value) :=
  if it ∈ list.nodes then .ok { list with nodes := it :: list.nodes.erase it } else .error .undefined

end CacheList

/-- When a map takes a new bucket array, from the number of buckets it has and of its elements. -/
abbrev RehashPolicy := Nat → Nat → Option Nat

structure CacheMap (Key : Type) [BEq Key] [Hashable Key] where
  elements : Std.HashMap Key Pointer := ∅
  bucketCount : Nat := 1
  pool : PoolAllocator (Key × Pointer)

namespace CacheMap

variable {Key : Type} [BEq Key] [Hashable Key]

def find (map : CacheMap Key) (key : Key) : Option Pointer := map.elements[key]?

def allocateBuckets (pool : PoolAllocator (Key × Pointer)) (n : Nat) : Except Fault (PoolAllocator (Key × Pointer)) :=
  if n ≤ 1 then .ok pool else Prod.snd <$> pool.allocate n

def rehash (policy : RehashPolicy) (map : CacheMap Key) : Except Fault (CacheMap Key) :=
  match policy map.bucketCount map.elements.size with
  | none => .ok map
  | some n => do
      let pool ← allocateBuckets map.pool n
      -- the old array, like the new one, is not in the pool
      let pool := if map.bucketCount ≤ 1 then pool else pool.deallocate .heap map.bucketCount
      .ok { map with pool, bucketCount := n }

def assign (policy : RehashPolicy) (map : CacheMap Key) (key : Key) (it : Pointer) : Except Fault (CacheMap Key) :=
  match map.find key with
  | some node => do
      let element ← map.pool.read node
      .ok { map with pool := map.pool.construct node (element.1, it) }
  | none => do
      let (node, pool) ← map.pool.allocate 1
      let map ← rehash policy { map with pool := pool.construct node (key, it) }
      .ok { map with elements := map.elements.insert key node }

def erase (map : CacheMap Key) (key : Key) : CacheMap Key :=
  match map.find key with
  | none => map
  | some node => { map with elements := map.elements.erase key, pool := map.pool.deallocate node 1 }

end CacheMap

/-! ## The cache -/

structure MemoryFriendlyLRUCache (Key Value : Type) [BEq Key] [Hashable Key] where
  list : CacheList Key Value
  map : CacheMap Key
  capacity : Nat

namespace MemoryFriendlyLRUCache

variable {Key Value : Type} [BEq Key] [Hashable Key]

def new (capacity : Nat) : MemoryFriendlyLRUCache Key Value where
  list := { pool := .initPool capacity }
  map := { pool := .initPool capacity }
  capacity

def get (cache : MemoryFriendlyLRUCache Key Value) (key : Key) :
    Except Fault (MemoryFriendlyLRUCache Key Value × Option Value) :=
  match cache.map.find key with
  | none => .ok (cache, none)
  | some it => do
      let element ← cache.map.pool.read it
      let list ← cache.list.splice element.2
      let item ← list.pool.read element.2
      .ok ({ cache with list }, some item.2)

def evict (cache : MemoryFriendlyLRUCache Key Value) : Except Fault (MemoryFriendlyLRUCache Key Value) := do
  let last ← cache.list.back
  let map := cache.map.erase last.1
  let list ← cache.list.popBack
  .ok { cache with list, map }

def makeRoom (cache : MemoryFriendlyLRUCache Key Value) : Except Fault (MemoryFriendlyLRUCache Key Value) :=
  if cache.list.size ≥ cache.capacity then cache.evict else .ok cache

def put (policy : RehashPolicy) (cache : MemoryFriendlyLRUCache Key Value) (key : Key) (value : Value) :
    Except Fault (MemoryFriendlyLRUCache Key Value) :=
  match cache.map.find key with
  | some it => do
      let element ← cache.map.pool.read it
      let item ← cache.list.pool.read element.2
      let list := { cache.list with pool := cache.list.pool.construct element.2 (item.1, value) }
      let list ← list.splice element.2
      .ok { cache with list }
  | none => do
      let cache ← cache.makeRoom
      let list ← cache.list.emplaceFront key value
      let front ← list.begin
      let map ← cache.map.assign policy key front
      .ok { cache with list, map }

def size (cache : MemoryFriendlyLRUCache Key Value) : Nat := cache.list.size

inductive Call (Key Value : Type) where
  | get (key : Key)
  | put (key : Key) (value : Value)

def exec (policy : RehashPolicy) (cache : MemoryFriendlyLRUCache Key Value) :
    Call Key Value → Except Fault (MemoryFriendlyLRUCache Key Value × Option Value)
  | .get key => cache.get key
  | .put key value => do
      let cache ← cache.put policy key value
      .ok (cache, none)

def run (policy : RehashPolicy) (cache : MemoryFriendlyLRUCache Key Value) :
    List (Call Key Value) → Except Fault (MemoryFriendlyLRUCache Key Value × List (Option Value))
  | [] => .ok (cache, [])
  | call :: calls => do
      let (cache, result) ← cache.exec policy call
      let (cache, results) ← run policy cache calls
      .ok (cache, result :: results)

end MemoryFriendlyLRUCache

end KnowledgeAcquisition.FriendlyCache
