import KnowledgeAcquisition.FriendlyCache.PoolAllocator
import KnowledgeAcquisition.Library.Transducer

/-!
# Least recently used

The reference cache: an association list with the most recent entry first, cut to its capacity.
-/

namespace KnowledgeAcquisition.FriendlyCache
open Library

namespace LeastRecentlyUsed

variable {Key Value : Type} [BEq Key]

def lookup (entries : List (Key × Value)) (key : Key) : Option (Key × Value) := entries.find? (·.1 == key)

def touch (entries : List (Key × Value)) (entry : Key × Value) : List (Key × Value) :=
  entry :: entries.eraseP (·.1 == entry.1)

def get (entries : List (Key × Value)) (key : Key) : List (Key × Value) × Option Value :=
  match lookup entries key with
  | none => (entries, none)
  | some entry => (touch entries entry, some entry.2)

def put (capacity : Nat) (entries : List (Key × Value)) (key : Key) (value : Value) : List (Key × Value) :=
  match lookup entries key with
  | none => ((key, value) :: entries).take capacity
  | some entry => touch entries (entry.1, value)

def exec (capacity : Nat) (entries : List (Key × Value)) :
    MemoryFriendlyLRUCache.Call Key Value → List (Key × Value) × Option Value
  | .get key => get entries key
  | .put key value => (put capacity entries key value, none)

def run (capacity : Nat) (entries : List (Key × Value)) (calls : List (MemoryFriendlyLRUCache.Call Key Value)) :
    List (Key × Value) × List (Option Value) :=
  Transducer.feed (exec capacity) entries calls

end LeastRecentlyUsed

end KnowledgeAcquisition.FriendlyCache
