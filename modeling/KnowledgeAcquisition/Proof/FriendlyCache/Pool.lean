import KnowledgeAcquisition.FriendlyCache.PoolAllocator
import KnowledgeAcquisition.Library.Links

/-!
# The pool

The blocks of a pool are at every time the free list and the blocks in use, each block once.
-/

namespace KnowledgeAcquisition.Proof.FriendlyCache
open KnowledgeAcquisition.FriendlyCache Library Links PoolAllocator

variable {T : Type} {pool : PoolAllocator T} {count : Nat} {free : List Nat} {used : List (Nat × T)}

def nextFree (pool : PoolAllocator T) (i : Nat) : Option Nat :=
  match pool.memory i with
  | .node next => next
  | .object _ => none

/-- The free list runs through `free`, and the elements of `used` are in their blocks. -/
structure Laid (pool : PoolAllocator T) (free : List Nat) (used : List (Nat × T)) : Prop where
  chain : Chain (nextFree pool) pool.freeList free
  vacant : ∀ i ∈ free, ∃ next, pool.memory i = .node next
  holds : ∀ entry ∈ used, pool.memory entry.1 = .object entry.2

def Serves (pool : PoolAllocator T) (count : Nat) (used : List (Nat × T)) : Prop :=
  ∃ free, Laid pool free used ∧ (free ++ used.map Prod.fst).Perm (List.range count)

theorem nodup_of_perm_range {is : List Nat} (blocks : is.Perm (List.range count)) : is.Nodup :=
  blocks.nodup_iff.mpr List.nodup_range

theorem Laid.overwrite (laid : Laid pool free used) {i : Nat} (fresh : i ∉ free) (unused : i ∉ used.map Prod.fst)
    (block : MemoryBlock T) : Laid { pool with memory := Function.update pool.memory i block } free used := by
  have other : ∀ j, j ≠ i →
      ({ pool with memory := Function.update pool.memory i block } : PoolAllocator T).memory j = pool.memory j :=
    fun j different => Function.update_of_ne different _ _
  refine ⟨laid.chain.congr ?_, ?_, ?_⟩
  · intro j member
    have different : j ≠ i := fun same => fresh (same ▸ member)
    rw [nextFree, other j different, nextFree]
  · intro j member
    rw [other j fun same => fresh (same ▸ member)]
    exact laid.vacant j member
  · intro entry member
    have different : entry.1 ≠ i := fun same => unused (same ▸ List.mem_map_of_mem member)
    rw [other entry.1 different]
    exact laid.holds entry member

theorem Laid.link (laid : Laid pool free used) {i : Nat} (fresh : i ∉ free) (unused : i ∉ used.map Prod.fst) :
    Laid (pool.link i) (i :: free) used := by
  obtain ⟨chain, vacant, holds⟩ := laid.overwrite fresh unused (.node pool.freeList)
  have here : (pool.link i).memory i = .node pool.freeList := Function.update_self i _ _
  have next : nextFree (pool.link i) i = pool.freeList := by
    rw [nextFree, here]
  refine ⟨⟨rfl, ?_⟩, ?_, holds⟩
  · rw [next]
    exact chain
  · intro j member
    rcases List.mem_cons.mp member with rfl | member
    · exact ⟨_, here⟩
    · exact vacant j member

theorem Laid.construct (laid : Laid pool free used) {i : Nat} (fresh : i ∉ free) (unused : i ∉ used.map Prod.fst)
    (value : T) : Laid (pool.construct (.block i) value) free ((i, value) :: used) := by
  obtain ⟨chain, vacant, holds⟩ := laid.overwrite fresh unused (.object value)
  refine ⟨chain, vacant, ?_⟩
  intro entry member
  rcases List.mem_cons.mp member with rfl | member
  · exact Function.update_self i _ _
  · exact holds entry member

theorem Laid.tail {entry : Nat × T} (laid : Laid pool free (entry :: used)) : Laid pool free used :=
  ⟨laid.chain, laid.vacant, fun other member => laid.holds other (List.mem_cons_of_mem entry member)⟩

theorem initPool_serves (count : Nat) : Serves (initPool count : PoolAllocator T) count [] := by
  induction count with
  | zero => exact ⟨[], ⟨rfl, by simp, by simp⟩, List.Perm.refl []⟩
  | succ count ih =>
      obtain ⟨free, laid, blocks⟩ := ih
      rw [List.map_nil, List.append_nil] at blocks
      have step : (initPool (count + 1) : PoolAllocator T) = (initPool count).link count := by
        rw [initPool, List.range_succ, List.foldl_append, initPool]
        rfl
      have fresh : count ∉ free := fun member => List.not_mem_range_self (blocks.mem_iff.mp member)
      refine ⟨count :: free, ?_, ?_⟩
      · rw [step]
        exact laid.link fresh List.not_mem_nil
      · rw [List.map_nil, List.append_nil, List.range_succ]
        exact (blocks.cons count).trans (List.perm_append_singleton count _).symm

theorem Serves.perm {used' : List (Nat × T)} (serves : Serves pool count used) (same : used.Perm used') :
    Serves pool count used' := by
  obtain ⟨free, laid, blocks⟩ := serves
  refine ⟨free, ⟨laid.chain, laid.vacant, ?_⟩, ?_⟩
  · intro entry member
    exact laid.holds entry (same.mem_iff.mpr member)
  · exact ((same.map Prod.fst).append_left free).symm.trans blocks

theorem Serves.nodup (serves : Serves pool count used) : (used.map Prod.fst).Nodup := by
  obtain ⟨free, -, blocks⟩ := serves
  exact (List.nodup_append.mp (nodup_of_perm_range blocks)).2.1

theorem Serves.length_le (serves : Serves pool count used) : used.length ≤ count := by
  obtain ⟨free, -, blocks⟩ := serves
  have length := blocks.length_eq
  simp only [List.length_append, List.length_map, List.length_range] at length
  omega

theorem Serves.read (serves : Serves pool count used) {i : Nat} {value : T} (member : (i, value) ∈ used) :
    pool.read (.block i) = .ok value := by
  obtain ⟨free, laid, -⟩ := serves
  have here := laid.holds (i, value) member
  simp only [PoolAllocator.read, here]

theorem Serves.allocate (serves : Serves pool count used) (room : used.length < count) :
    ∃ i left, pool.allocate 1 = .ok (.block i, left) ∧
      ∀ value, Serves (left.construct (.block i) value) count ((i, value) :: used) := by
  obtain ⟨free, laid, blocks⟩ := serves
  have nodup := nodup_of_perm_range blocks
  cases free with
  | nil =>
      have length := blocks.length_eq
      simp only [List.nil_append, List.length_map, List.length_range] at length
      omega
  | cons i free =>
      obtain ⟨next, vacant⟩ := laid.vacant i List.mem_cons_self
      have head : pool.freeList = some i := laid.chain.1
      have rest : Chain (nextFree pool) next free := by
        have tail := laid.chain.2
        rwa [nextFree, vacant] at tail
      rw [List.cons_append, List.nodup_cons, List.mem_append, not_or] at nodup
      refine ⟨i, { pool with freeList := next }, ?_, ?_⟩
      · simp [PoolAllocator.allocate, head, vacant]
      · intro value
        have left : Laid { pool with freeList := next } free used :=
          ⟨rest, fun j member => laid.vacant j (List.mem_cons_of_mem i member), laid.holds⟩
        exact ⟨free, left.construct nodup.1.1 nodup.1.2 value, List.perm_middle.trans blocks⟩

theorem Serves.deallocate {i : Nat} {value : T} (serves : Serves pool count ((i, value) :: used)) :
    Serves (pool.deallocate (.block i) 1) count used := by
  obtain ⟨free, laid, blocks⟩ := serves
  have middle : (i :: (free ++ used.map Prod.fst)).Perm (List.range count) := List.perm_middle.symm.trans blocks
  have nodup := nodup_of_perm_range middle
  rw [List.nodup_cons, List.mem_append, not_or] at nodup
  exact ⟨i :: free, laid.tail.link nodup.1.1 nodup.1.2, middle⟩

theorem Serves.construct {i : Nat} {old : T} (serves : Serves pool count ((i, old) :: used)) (value : T) :
    Serves (pool.construct (.block i) value) count ((i, value) :: used) := by
  obtain ⟨free, laid, blocks⟩ := serves
  have nodup := nodup_of_perm_range (List.perm_middle.symm.trans blocks)
  rw [List.nodup_cons, List.mem_append, not_or] at nodup
  exact ⟨free, laid.tail.construct nodup.1.1 nodup.1.2 value, blocks⟩

end KnowledgeAcquisition.Proof.FriendlyCache
