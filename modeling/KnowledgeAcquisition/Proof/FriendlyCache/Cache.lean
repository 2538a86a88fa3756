import KnowledgeAcquisition.FriendlyCache.LeastRecentlyUsed
import KnowledgeAcquisition.Proof.FriendlyCache.Pool

/-!
# The cache against the reference

A cache is described by its cells, most recent first: an entry, the block of its list node and the block of
its map node. Both pools hold exactly the blocks of the cells, so there is a block for a new cell
whenever there are fewer cells than blocks.
-/

namespace KnowledgeAcquisition.Proof.FriendlyCache
open KnowledgeAcquisition.FriendlyCache MemoryFriendlyLRUCache Library

theorem ok_bind {α β : Type} (a : α) (next : α → Except Fault β) : (Except.ok a >>= next) = next a := rfl

structure Cell (Key Value : Type) where
  item : Key × Value
  node : Nat
  slot : Nat

variable {Key Value : Type}

def Cell.listBlock (cell : Cell Key Value) : Nat × (Key × Value) := (cell.node, cell.item)
def Cell.mapBlock (cell : Cell Key Value) : Nat × (Key × Pointer) := (cell.slot, (cell.item.1, .block cell.node))

variable [BEq Key]

def Different (entry other : Key × Value) : Prop := (entry.1 == other.1) = false

theorem Different.symm [EquivBEq Key] {entry other : Key × Value} (different : Different entry other) :
    Different other entry :=
  BEq.symm_false different

variable [Hashable Key]

structure Indexed (elements : Std.HashMap Key Pointer) (cells : List (Cell Key Value)) : Prop where
  node : ∀ cell ∈ cells, elements[cell.item.1]? = some (.block cell.slot)
  known : ∀ key, key ∈ elements → ∃ cell ∈ cells, cell.item.1 == key
  size : elements.size = cells.length
  different : (cells.map Cell.item).Pairwise Different

section Keys

variable [EquivBEq Key] {elements : Std.HashMap Key Pointer} {cells before after : List (Cell Key Value)}
  {cell : Cell Key Value}

theorem Indexed.perm {cells' : List (Cell Key Value)} (index : Indexed elements cells) (same : cells.Perm cells') :
    Indexed elements cells' where
  node other member := index.node other (same.mem_iff.mpr member)
  known key present := by
    obtain ⟨other, member, equal⟩ := index.known key present
    exact ⟨other, same.mem_iff.mp member, equal⟩
  size := index.size.trans same.length_eq
  different := (same.map Cell.item).pairwise index.different Different.symm

variable [LawfulHashable Key]

theorem Indexed.mem_iff (index : Indexed elements cells) (key : Key) :
    key ∈ elements ↔ ∃ entry ∈ cells.map Cell.item, entry.1 == key := by
  constructor
  · intro present
    obtain ⟨cell, member, same⟩ := index.known key present
    exact ⟨cell.item, List.mem_map_of_mem member, same⟩
  · rintro ⟨entry, member, same⟩
    obtain ⟨cell, here, rfl⟩ := List.mem_map.mp member
    have found := index.node cell here
    rw [Std.HashMap.getElem?_congr same] at found
    rw [← Std.HashMap.isSome_getElem?_iff_mem, found]
    rfl

theorem Indexed.hit (index : Indexed elements cells) {key : Key} {it : Pointer} (found : elements[key]? = some it) :
    ∃ before cell after, cells = before ++ cell :: after ∧ it = .block cell.slot ∧
      LeastRecentlyUsed.lookup (cells.map Cell.item) key = some cell.item ∧
      (cells.map Cell.item).eraseP (·.1 == cell.item.1) = (before ++ after).map Cell.item := by
  have present : key ∈ elements := by
    rw [← Std.HashMap.isSome_getElem?_iff_mem, found]
    rfl
  obtain ⟨cell, member, same⟩ := index.known key present
  have slot := index.node cell member
  rw [Std.HashMap.getElem?_congr same, found] at slot
  obtain ⟨before, after, split⟩ := List.append_of_mem member
  have different := index.different
  rw [split, List.map_append, List.map_cons, List.pairwise_append] at different
  have earlier : ∀ entry ∈ before.map Cell.item, (entry.1 == cell.item.1) = false := fun entry here =>
    different.2.2 entry here cell.item List.mem_cons_self
  refine ⟨before, cell, after, split, Option.some.inj slot, ?_, ?_⟩
  · have missed : ∀ entry ∈ before.map Cell.item, ¬(entry.1 == key) = true := by
      intro entry here hits
      have other := earlier entry here
      rw [BEq.congr_right same, hits] at other
      cases other
    rw [LeastRecentlyUsed.lookup, split, List.map_append, List.map_cons, List.find?_append,
      List.find?_eq_none.mpr missed, List.find?_cons]
    simp [same]
  · rw [split, List.map_append, List.map_cons, List.eraseP_append_right _ (by simpa using earlier),
      List.eraseP_cons]
    simp

theorem Indexed.miss (index : Indexed elements cells) {key : Key} (absent : elements[key]? = none) :
    LeastRecentlyUsed.lookup (cells.map Cell.item) key = none := by
  refine List.find?_eq_none.mpr ?_
  intro entry member same
  have present := (index.mem_iff key).mpr ⟨entry, member, same⟩
  rw [← Std.HashMap.isSome_getElem?_iff_mem, absent] at present
  cases present

theorem Indexed.insert (index : Indexed elements cells) {key : Key} (absent : elements[key]? = none) (value : Value)
    (node slot : Nat) : Indexed (elements.insert key (.block slot)) (⟨(key, value), node, slot⟩ :: cells) := by
  have unknown : key ∉ elements := by
    rw [Std.HashMap.mem_iff_isSome_getElem?, absent]
    exact Bool.false_ne_true
  have fresh : ∀ entry ∈ cells.map Cell.item, (key == entry.1) = false := by
    intro entry member
    have missed := List.find?_eq_none.mp (index.miss absent) entry member
    exact BEq.symm_false (Bool.eq_false_iff.mpr missed)
  refine ⟨?_, ?_, ?_, List.pairwise_cons.mpr ⟨fresh, index.different⟩⟩
  · intro cell member
    rcases List.mem_cons.mp member with rfl | member
    · exact Std.HashMap.getElem?_insert_self
    · rw [Std.HashMap.getElem?_insert, fresh cell.item (List.mem_map_of_mem member)]
      exact index.node cell member
  · intro other present
    rcases Std.HashMap.mem_insert.mp present with same | present
    · exact ⟨_, List.mem_cons_self, same⟩
    · obtain ⟨cell, member, same⟩ := index.known other present
      exact ⟨cell, List.mem_cons_of_mem _ member, same⟩
  · rw [Std.HashMap.size_insert, if_neg unknown, index.size, List.length_cons]

theorem Indexed.erase (index : Indexed elements (cells ++ [cell])) :
    Indexed (elements.erase cell.item.1) cells := by
  have last := index.different
  rw [List.map_append, List.pairwise_append] at last
  have other : ∀ entry ∈ cells.map Cell.item, (cell.item.1 == entry.1) = false := fun entry member =>
    BEq.symm_false (last.2.2 entry member cell.item (List.mem_singleton_self _))
  have present : cell.item.1 ∈ elements :=
    (index.mem_iff cell.item.1).mpr ⟨cell.item, by simp, BEq.rfl⟩
  refine ⟨?_, ?_, ?_, last.1⟩
  · intro earlier member
    rw [Std.HashMap.getElem?_erase, other earlier.item (List.mem_map_of_mem member)]
    exact index.node earlier (List.mem_append_left _ member)
  · intro key left
    rw [Std.HashMap.mem_erase] at left
    obtain ⟨found, member, same⟩ := index.known key left.2
    rcases List.mem_append.mp member with member | member
    · exact ⟨found, member, same⟩
    · obtain rfl := List.mem_singleton.mp member
      rw [same] at left
      cases left.1
  · rw [Std.HashMap.size_erase, if_pos present, index.size]
    simp

end Keys

/-! ## The cells of a cache -/

structure Represents (capacity : Nat) (cache : MemoryFriendlyLRUCache Key Value) (cells : List (Cell Key Value)) :
    Prop where
  capacity_eq : cache.capacity = capacity
  nodes : cache.list.nodes = cells.map fun cell => .block cell.node
  listPool : Serves cache.list.pool capacity (cells.map Cell.listBlock)
  mapPool : Serves cache.map.pool capacity (cells.map Cell.mapBlock)
  index : Indexed cache.map.elements cells

variable {capacity : Nat} {cache : MemoryFriendlyLRUCache Key Value} {cells before after : List (Cell Key Value)}
  {cell : Cell Key Value}

theorem represents_new : Represents capacity (new capacity : MemoryFriendlyLRUCache Key Value) [] where
  capacity_eq := rfl
  nodes := rfl
  listPool := initPool_serves capacity
  mapPool := initPool_serves capacity
  index := ⟨by simp, by simp [new], by simp [new], List.Pairwise.nil⟩

theorem Represents.node_fresh (represents : Represents capacity cache (before ++ cell :: after)) :
    Pointer.block cell.node ∉ before.map fun other => Pointer.block other.node := by
  intro member
  obtain ⟨other, here, same⟩ := List.mem_map.mp member
  have nodup := represents.listPool.nodup
  rw [List.map_map, List.map_append, List.map_cons, List.nodup_append] at nodup
  exact nodup.2.2 other.node (List.mem_map_of_mem here) cell.node List.mem_cons_self (Pointer.block.inj same)

theorem Represents.read_map (represents : Represents capacity cache (before ++ cell :: after)) :
    cache.map.pool.read (.block cell.slot) = .ok (cell.item.1, .block cell.node) := by
  refine represents.mapPool.read (List.mem_map.mpr ⟨cell, ?_, rfl⟩)
  simp

theorem Represents.read_list (represents : Represents capacity cache (before ++ cell :: after)) :
    cache.list.pool.read (.block cell.node) = .ok cell.item := by
  refine represents.listPool.read (List.mem_map.mpr ⟨cell, ?_, rfl⟩)
  simp

theorem rehash_eq (policy : RehashPolicy) (map : CacheMap Key) :
    ∃ bucketCount, map.rehash policy = .ok { map with bucketCount } := by
  unfold CacheMap.rehash
  cases policy map.bucketCount map.elements.size with
  | none => exact ⟨map.bucketCount, rfl⟩
  | some n =>
      have fresh : CacheMap.allocateBuckets map.pool n = .ok map.pool := by
        unfold CacheMap.allocateBuckets
        split_ifs with one
        · rfl
        · rw [PoolAllocator.allocate, if_pos (by omega)]
          rfl
      have old : (if map.bucketCount ≤ 1 then map.pool else map.pool.deallocate .heap map.bucketCount) = map.pool := by
        split_ifs with one
        · rfl
        · rw [PoolAllocator.deallocate, if_pos (by omega)]
      refine ⟨n, ?_⟩
      simp only [fresh, ok_bind, old]

section Steps

variable [EquivBEq Key]

theorem Represents.splice (represents : Represents capacity cache (before ++ cell :: after)) :
    ∃ list, cache.list.splice (.block cell.node) = .ok list ∧ list.pool = cache.list.pool ∧
      Represents capacity { cache with list } (cell :: (before ++ after)) := by
  have moved : (before ++ cell :: after).Perm (cell :: (before ++ after)) := List.perm_middle
  have member : Pointer.block cell.node ∈ cache.list.nodes := by
    rw [represents.nodes]
    simp
  have erased : Pointer.block cell.node :: cache.list.nodes.erase (.block cell.node) =
      (cell :: (before ++ after)).map fun other => .block other.node := by
    rw [represents.nodes, List.map_append, List.map_cons, List.erase_append_right _ represents.node_fresh,
      List.erase_cons_head]
    simp
  refine ⟨{ cache.list with nodes := .block cell.node :: cache.list.nodes.erase (.block cell.node) }, ?_, rfl, ?_⟩
  · rw [CacheList.splice, if_pos member]
  · exact ⟨represents.capacity_eq, erased, represents.listPool.perm (moved.map _),
      represents.mapPool.perm (moved.map _), represents.index.perm moved⟩

theorem Represents.update (represents : Represents capacity cache (before ++ cell :: after)) (value : Value) :
    Represents capacity
      { cache with list := { cache.list with
          pool := cache.list.pool.construct (.block cell.node) (cell.item.1, value) } }
      (before ++ { cell with item := (cell.item.1, value) } :: after) := by
  have front : ∀ fresh : Cell Key Value, (before ++ fresh :: after).Perm (fresh :: (before ++ after)) :=
    fun _ => List.perm_middle
  have index := represents.index.perm (front cell)
  have kept : Indexed cache.map.elements ({ cell with item := (cell.item.1, value) } :: (before ++ after)) := by
    refine ⟨?_, ?_, index.size, ?_⟩
    · intro other member
      rcases List.mem_cons.mp member with rfl | member
      · exact index.node cell List.mem_cons_self
      · exact index.node other (List.mem_cons_of_mem cell member)
    · intro key present
      obtain ⟨other, member, same⟩ := index.known key present
      rcases List.mem_cons.mp member with rfl | member
      · exact ⟨_, List.mem_cons_self, same⟩
      · exact ⟨other, List.mem_cons_of_mem _ member, same⟩
    · obtain ⟨fresh, rest⟩ := List.pairwise_cons.mp index.different
      exact List.pairwise_cons.mpr ⟨fresh, rest⟩
  have stored := (represents.listPool.perm ((front cell).map _)).construct (cell.item.1, value)
  refine ⟨represents.capacity_eq, ?_, ?_, ?_, kept.perm (front _).symm⟩
  · rw [represents.nodes, List.map_append, List.map_append, List.map_cons, List.map_cons]
  · exact Serves.perm stored ((front { cell with item := (cell.item.1, value) }).symm.map Cell.listBlock)
  · have same : (before ++ { cell with item := (cell.item.1, value) } :: after).map Cell.mapBlock =
        (before ++ cell :: after).map Cell.mapBlock := by
      rw [List.map_append, List.map_append, List.map_cons, List.map_cons]
      rfl
    rw [same]
    exact represents.mapPool

variable [LawfulHashable Key]

theorem Represents.evict (represents : Represents capacity cache (cells ++ [cell])) :
    ∃ left, cache.evict = .ok left ∧ Represents capacity left cells := by
  have last : cache.list.nodes = cells.map (fun other => .block other.node) ++ [.block cell.node] := by
    rw [represents.nodes, List.map_append]
    rfl
  have read := Represents.read_list represents
  have found : cache.map.elements[cell.item.1]? = some (.block cell.slot) :=
    represents.index.node cell (by simp)
  have moved : (cells ++ [cell]).Perm (cell :: cells) := List.perm_append_singleton cell cells
  refine ⟨{ cache with
    list := { nodes := cells.map fun other => .block other.node, pool := cache.list.pool.deallocate (.block cell.node) 1 }
    map := { cache.map with elements := cache.map.elements.erase cell.item.1,
                            pool := cache.map.pool.deallocate (.block cell.slot) 1 } }, ?_, ?_⟩
  · simp only [MemoryFriendlyLRUCache.evict, CacheList.back, CacheList.popBack, last, List.getLast?_concat,
      List.dropLast_concat, read, CacheMap.erase, CacheMap.find, ok_bind, found]
  · exact ⟨represents.capacity_eq, rfl, (represents.listPool.perm (moved.map _)).deallocate,
      (represents.mapPool.perm (moved.map _)).deallocate, represents.index.erase⟩

theorem Represents.makeRoom (represents : Represents capacity cache cells) (positive : 1 ≤ capacity) :
    ∃ left, cache.makeRoom = .ok left ∧ Represents capacity left (cells.take (capacity - 1)) := by
  have size : cache.list.size = cells.length := by
    rw [CacheList.size, represents.nodes, List.length_map]
  have bound : cells.length ≤ capacity := by
    have length := represents.listPool.length_le
    rwa [List.length_map] at length
  rw [MemoryFriendlyLRUCache.makeRoom, size, represents.capacity_eq]
  by_cases full : cells.length ≥ capacity
  · rw [if_pos full]
    rcases List.eq_nil_or_concat' cells with rfl | ⟨rest, last, rfl⟩
    · simp at full
      omega
    · have cut : (rest ++ [last]).take (capacity - 1) = rest := by
        rw [List.length_append, List.length_singleton] at full bound
        exact List.take_left' (by omega)
      rw [cut]
      exact represents.evict
  · rw [if_neg full, List.take_of_length_le (by omega)]
    exact ⟨cache, rfl, represents⟩

theorem Represents.insert (represents : Represents capacity cache cells) (room : cells.length < capacity)
    (policy : RehashPolicy) {key : Key} (absent : cache.map.elements[key]? = none) (value : Value) :
    ∃ list front map cell, cache.list.emplaceFront key value = .ok list ∧ list.begin = .ok front ∧
      cache.map.assign policy key front = .ok map ∧ cell.item = (key, value) ∧
      Represents capacity { cache with list, map } (cell :: cells) := by
  obtain ⟨node, listLeft, listTaken, listServes⟩ := represents.listPool.allocate (by rwa [List.length_map])
  obtain ⟨slot, mapLeft, mapTaken, mapServes⟩ := represents.mapPool.allocate (by rwa [List.length_map])
  obtain ⟨bucketCount, rehashed⟩ := rehash_eq policy
    { cache.map with pool := mapLeft.construct (.block slot) (key, .block node) }
  refine ⟨{ nodes := .block node :: cache.list.nodes, pool := listLeft.construct (.block node) (key, value) },
    .block node,
    { elements := cache.map.elements.insert key (.block slot), bucketCount,
      pool := mapLeft.construct (.block slot) (key, .block node) },
    ⟨(key, value), node, slot⟩, ?_, rfl, ?_, rfl, ?_⟩
  · rw [CacheList.emplaceFront, listTaken]
    rfl
  · simp only [CacheMap.assign, CacheMap.find, absent, mapTaken, ok_bind, rehashed]
  · refine ⟨represents.capacity_eq, ?_, listServes (key, value), mapServes (key, .block node),
      represents.index.insert absent value node slot⟩
    rw [represents.nodes, List.map_cons]

theorem get_refines (represents : Represents capacity cache cells) (key : Key) :
    ∃ next moved, cache.get key = .ok (next, (LeastRecentlyUsed.get (cells.map Cell.item) key).2) ∧
      Represents capacity next moved ∧ moved.map Cell.item = (LeastRecentlyUsed.get (cells.map Cell.item) key).1 := by
  unfold MemoryFriendlyLRUCache.get LeastRecentlyUsed.get CacheMap.find
  cases found : cache.map.elements[key]? with
  | none =>
      rw [represents.index.miss found]
      exact ⟨cache, cells, rfl, represents, rfl⟩
  | some it =>
      obtain ⟨before, cell, after, rfl, rfl, hit, erased⟩ := represents.index.hit found
      obtain ⟨list, spliced, pool, moved⟩ := represents.splice
      have read := represents.read_list
      rw [← pool] at read
      refine ⟨{ cache with list }, cell :: (before ++ after), ?_, moved, ?_⟩
      · simp only [represents.read_map, spliced, read, ok_bind, hit]
      · rw [hit]
        simp only [LeastRecentlyUsed.touch, erased, List.map_cons]

theorem put_refines (represents : Represents capacity cache cells) (positive : 1 ≤ capacity) (policy : RehashPolicy)
    (key : Key) (value : Value) :
    ∃ next moved, cache.put policy key value = .ok next ∧ Represents capacity next moved ∧
      moved.map Cell.item = LeastRecentlyUsed.put capacity (cells.map Cell.item) key value := by
  unfold MemoryFriendlyLRUCache.put LeastRecentlyUsed.put CacheMap.find
  cases found : cache.map.elements[key]? with
  | none =>
      obtain ⟨left, made, shorter⟩ := represents.makeRoom positive
      have absent : left.map.elements[key]? = none := by
        refine Std.HashMap.getElem?_eq_none ?_
        intro present
        obtain ⟨entry, member, same⟩ := (shorter.index.mem_iff key).mp present
        rw [List.map_take] at member
        have missed := List.find?_eq_none.mp (represents.index.miss found) entry (List.mem_of_mem_take member)
        exact missed same
      have room : (cells.take (capacity - 1)).length < capacity := by
        rw [List.length_take]
        omega
      obtain ⟨list, front, map, cell, emplaced, first, assigned, item, grown⟩ :=
        shorter.insert room policy absent value
      refine ⟨{ left with list, map }, cell :: cells.take (capacity - 1), ?_, grown, ?_⟩
      · simp only [made, emplaced, first, assigned, ok_bind]
      · rw [represents.index.miss found, List.map_cons, item, List.map_take]
        exact (List.take_cons positive).symm
  | some it =>
      obtain ⟨before, cell, after, rfl, rfl, hit, erased⟩ := represents.index.hit found
      obtain ⟨list, spliced, -, moved⟩ := (represents.update value).splice
      refine ⟨{ cache with list }, _, ?_, moved, ?_⟩
      · simp only [represents.read_map, represents.read_list, ok_bind]
        rw [spliced]
        rfl
      · rw [hit]
        simp only [LeastRecentlyUsed.touch, erased, List.map_cons]

theorem exec_refines (represents : Represents capacity cache cells) (positive : 1 ≤ capacity) (policy : RehashPolicy)
    (call : Call Key Value) :
    ∃ next moved,
      cache.exec policy call = .ok (next, (LeastRecentlyUsed.exec capacity (cells.map Cell.item) call).2) ∧
      Represents capacity next moved ∧
      moved.map Cell.item = (LeastRecentlyUsed.exec capacity (cells.map Cell.item) call).1 := by
  cases call with
  | get key => exact get_refines represents key
  | put key value =>
      obtain ⟨next, moved, done, related, same⟩ := put_refines represents positive policy key value
      refine ⟨next, moved, ?_, related, same⟩
      simp only [exec, done, ok_bind, LeastRecentlyUsed.exec]

theorem run_refines (represents : Represents capacity cache cells) (positive : 1 ≤ capacity) (policy : RehashPolicy)
    (calls : List (Call Key Value)) :
    ∃ last moved, cache.run policy calls = .ok (last, (LeastRecentlyUsed.run capacity (cells.map Cell.item) calls).2) ∧
      Represents capacity last moved ∧
      moved.map Cell.item = (LeastRecentlyUsed.run capacity (cells.map Cell.item) calls).1 := by
  induction calls generalizing cache cells with
  | nil => exact ⟨cache, cells, rfl, represents, rfl⟩
  | cons call calls ih =>
      obtain ⟨next, moved, done, related, same⟩ := exec_refines represents positive policy call
      obtain ⟨last, final, rest, represented, contents⟩ := ih related
      rw [same] at rest contents
      refine ⟨last, final, ?_, represented, contents⟩
      simp only [run, done, rest, ok_bind]
      rfl

end Steps

def contents (cache : MemoryFriendlyLRUCache Key Value) : Except Fault (List (Key × Value)) :=
  cache.list.nodes.mapM cache.list.pool.read

/-- The map and the list describe the keys of `entries`, each once. -/
structure Describes (cache : MemoryFriendlyLRUCache Key Value) (entries : List (Key × Value)) : Prop where
  list : contents cache = .ok entries
  map : ∀ key, key ∈ cache.map.elements ↔ ∃ entry ∈ entries, entry.1 == key
  once : entries.Pairwise Different
  sameSize : cache.map.elements.size = cache.size

theorem contents_eq (cells : List (Cell Key Value)) (nodes : cache.list.nodes = cells.map fun cell => .block cell.node)
    (read : ∀ cell ∈ cells, cache.list.pool.read (.block cell.node) = .ok cell.item) :
    contents cache = .ok (cells.map Cell.item) := by
  rw [contents, nodes]
  clear nodes
  induction cells with
  | nil => rfl
  | cons cell cells ih =>
      have rest := ih fun other member => read other (List.mem_cons_of_mem cell member)
      rw [List.map_cons, List.mapM_cons, read cell List.mem_cons_self, rest]
      rfl

theorem Represents.describes [EquivBEq Key] [LawfulHashable Key] (represents : Represents capacity cache cells) :
    Describes cache (cells.map Cell.item) where
  list := contents_eq cells represents.nodes fun cell member =>
    represents.listPool.read (List.mem_map.mpr ⟨cell, member, rfl⟩)
  map := represents.index.mem_iff
  once := represents.index.different
  sameSize := by
    rw [represents.index.size, MemoryFriendlyLRUCache.size, CacheList.size, represents.nodes, List.length_map]

theorem run_eq_leastRecentlyUsed [EquivBEq Key] [LawfulHashable Key] (capacity : Nat) (positive : 1 ≤ capacity)
    (policy : RehashPolicy) (calls : List (Call Key Value)) :
    ∃ cache, (new capacity).run policy calls = .ok (cache, (LeastRecentlyUsed.run capacity [] calls).2) ∧
      Describes cache (LeastRecentlyUsed.run capacity [] calls).1 ∧
      cache.size = (LeastRecentlyUsed.run capacity [] calls).1.length := by
  have start : Represents capacity (new capacity : MemoryFriendlyLRUCache Key Value) [] := represents_new
  obtain ⟨cache, cells, ran, represents, same⟩ := run_refines start positive policy calls
  rw [List.map_nil] at ran same
  refine ⟨cache, ran, ?_, ?_⟩
  · exact same ▸ represents.describes
  · rw [← same, MemoryFriendlyLRUCache.size, CacheList.size, represents.nodes, List.length_map, List.length_map]

theorem run_eq_leastRecentlyUsed_three :
    let calls : List (Call Nat String) := [.put 1 "Data_1", .put 2 "Data_2", .put 3 "Data_3", .get 1,
      .put 4 "Data_4", .get 2, .put 2 "again", .get 1]
    1 ≤ 3 ∧ ∃ cache, (new 3).run (fun _ _ => none) calls = .ok (cache, (LeastRecentlyUsed.run 3 [] calls).2) ∧
      Describes cache (LeastRecentlyUsed.run 3 [] calls).1 ∧
      cache.size = (LeastRecentlyUsed.run 3 [] calls).1.length :=
  ⟨by decide, run_eq_leastRecentlyUsed 3 (by decide) _ _⟩

end KnowledgeAcquisition.Proof.FriendlyCache
