import KnowledgeAcquisition.HFT.OrderBook
import KnowledgeAcquisition.Library.Links

/-!
# What the nodes, the levels and the index represent

A `Layout` lists the nodes of every queue and of the free list. `Represents` says that the links of
the pool, the ends of the levels and the identifier index hold a given layout. It allows a level
with an empty queue, which exists between the last fill at a price and the eviction of the level.
Each primitive step of the engine gets one lemma here.
-/

namespace KnowledgeAcquisition.Proof.HFT
open KnowledgeAcquisition.HFT Library Links

variable {n : Nat}

structure Layout (n : Nat) where
  queue : Side → Price → List (Fin n)
  free : List (Fin n)

abbrev Levels (n : Nat) := Side → Price → Option (Limit n)

abbrev Index (n : Nat) := OrderID → Option (Fin n)

def nexts (orders : OrderPool n) (i : Fin n) : Option (Fin n) := (orders.pool i).next
def prevs (orders : OrderPool n) (i : Fin n) : Option (Fin n) := (orders.pool i).prev

def Layout.Linked (layout : Layout n) (orders : OrderPool n) (i : Fin n) : Prop :=
  i ∈ layout.queue (orders.pool i).side (orders.pool i).price

structure Represents (orders : OrderPool n) (index : Index n) (levels : Levels n)
    (layout : Layout n) : Prop where
  located : ∀ side price i, i ∈ layout.queue side price →
    (orders.pool i).side = side ∧ (orders.pool i).price = price
  present : ∀ side price limit, levels side price = some limit → limit.price = price ∧
    Queue (nexts orders) (prevs orders) limit.head limit.tail (layout.queue side price)
  absent : ∀ side price, levels side price = none → layout.queue side price = []
  free : Chain (nexts orders) orders.freeList layout.free
  freeNodup : layout.free.Nodup
  cover : ∀ i, i ∈ layout.free ↔ ¬layout.Linked orders i
  index : ∀ id i, index id = some i ↔ layout.Linked orders i ∧ (orders.pool i).id = id

def setAt {α : Type} (f : Side → Price → α) (side : Side) (price : Price) (value : α) : Side → Price → α :=
  fun s p => if s = side ∧ p = price then value else f s p

@[simp] theorem setAt_same {α : Type} (f : Side → Price → α) (side : Side) (price : Price) (value : α) :
    setAt f side price value side price = value := by
  simp [setAt]

theorem setAt_other {α : Type} (f : Side → Price → α) {side s : Side} {price p : Price} (value : α)
    (other : ¬(s = side ∧ p = price)) : setAt f side price value s p = f s p := by
  simp [setAt, other]

@[simp] theorem setAt_setAt {α : Type} (f : Side → Price → α) (side : Side) (price : Price) (v w : α) :
    setAt (setAt f side price v) side price w = setAt f side price w := by
  funext s p
  by_cases here : s = side ∧ p = price <;> simp [setAt, here]

theorem setAt_eq_self {α : Type} {f : Side → Price → α} {side : Side} {price : Price} {value : α}
    (same : f side price = value) : setAt f side price value = f := by
  funext s p
  by_cases here : s = side ∧ p = price
  · rw [here.1, here.2, setAt_same, same]
  · exact setAt_other f value here

theorem modify_nexts (orders : OrderPool n) (a : Fin n) (f : Order n → Order n) :
    nexts (orders.modify a f) = Function.update (nexts orders) a (f (orders.pool a)).next := by
  funext i
  by_cases here : i = a
  · subst here
    simp [nexts, OrderPool.modify]
  · simp [nexts, OrderPool.modify, here]

theorem modify_prevs (orders : OrderPool n) (a : Fin n) (f : Order n → Order n) :
    prevs (orders.modify a f) = Function.update (prevs orders) a (f (orders.pool a)).prev := by
  funext i
  by_cases here : i = a
  · subst here
    simp [prevs, OrderPool.modify]
  · simp [prevs, OrderPool.modify, here]

theorem modify_resting (orders : OrderPool n) (a : Fin n) (f : Order n → Order n)
    (links : ∀ order : Order n, (f order).resting = order.resting) (i : Fin n) :
    ((orders.modify a f).pool i).resting = (orders.pool i).resting := by
  by_cases here : i = a
  · subst here
    simp [OrderPool.modify, links]
  · simp [OrderPool.modify, here]

/-! ## Removing an order from its level -/

structure Removed (limit : Limit n) (orders : OrderPool n) (i : Fin n)
    (limit' : Limit n) (orders' : OrderPool n) : Prop where
  next : nexts orders' = unlinkNext (nexts orders) (prevs orders) i
  prev : prevs orders' = unlinkPrev (nexts orders) (prevs orders) i
  resting : ∀ j, (orders'.pool j).resting = (orders.pool j).resting
  freeList : orders'.freeList = orders.freeList
  price : limit'.price = limit.price
  head : limit'.head = if some i = limit.head then nexts orders i else limit.head
  tail : limit'.tail = if some i = limit.tail then prevs orders i else limit.tail

theorem linkPrevToNext_spec (orders : OrderPool n) (i : Fin n) :
    nexts (Limit.linkPrevToNext orders i) = unlinkNext (nexts orders) (prevs orders) i ∧
    prevs (Limit.linkPrevToNext orders i) = prevs orders ∧
    (∀ j, ((Limit.linkPrevToNext orders i).pool j).resting = (orders.pool j).resting) ∧
    (Limit.linkPrevToNext orders i).freeList = orders.freeList := by
  unfold Limit.linkPrevToNext
  cases back : (orders.pool i).prev with
  | none => simp [unlinkNext, prevs, back]
  | some before =>
      refine ⟨?_, ?_, modify_resting orders _ _ (fun _ => rfl), rfl⟩
      · rw [modify_nexts]
        simp [unlinkNext, prevs, back, nexts]
      · rw [modify_prevs]
        exact Function.update_eq_self before (prevs orders)

theorem linkNextToPrev_spec (orders : OrderPool n) (i : Fin n) :
    nexts (Limit.linkNextToPrev orders i) = nexts orders ∧
    prevs (Limit.linkNextToPrev orders i) = unlinkPrev (nexts orders) (prevs orders) i ∧
    (∀ j, ((Limit.linkNextToPrev orders i).pool j).resting = (orders.pool j).resting) ∧
    (Limit.linkNextToPrev orders i).freeList = orders.freeList := by
  unfold Limit.linkNextToPrev
  cases forward : (orders.pool i).next with
  | none => simp [unlinkPrev, nexts, forward]
  | some after =>
      refine ⟨?_, ?_, modify_resting orders _ _ (fun _ => rfl), rfl⟩
      · rw [modify_nexts]
        exact Function.update_eq_self after (nexts orders)
      · rw [modify_prevs]
        simp [unlinkPrev, nexts, forward, prevs]

theorem unlinkPrev_congr {next next' prev : Fin n → Option (Fin n)} {i : Fin n} (same : next' i = next i) :
    unlinkPrev next' prev i = unlinkPrev next prev i := by
  simp [unlinkPrev, same]

theorem remove_removed (limit : Limit n) (orders : OrderPool n) (i : Fin n) :
    Removed limit orders i (limit.remove orders i).1 (limit.remove orders i).2 := by
  obtain ⟨next₁, prev₁, resting₁, free₁⟩ := linkPrevToNext_spec orders i
  obtain ⟨next₂, prev₂, resting₂, free₂⟩ := linkNextToPrev_spec (Limit.linkPrevToNext orders i) i
  unfold Limit.remove
  simp only
  generalize Limit.linkPrevToNext orders i = orders₁ at *
  generalize Limit.linkNextToPrev orders₁ i = orders₂ at *
  have nextOwn : nexts orders₁ i = nexts orders i := by rw [next₁, unlinkNext_self]
  have prevAll : prevs orders₂ = unlinkPrev (nexts orders) (prevs orders) i := by
    rw [prev₂, prev₁, unlinkPrev_congr nextOwn]
  have next₂Own : (orders₂.pool i).next = nexts orders i := by
    show nexts orders₂ i = _
    rw [next₂, nextOwn]
  have prev₂Own : (orders₂.pool i).prev = prevs orders i := by
    show prevs orders₂ i = _
    rw [prevAll, unlinkPrev_self]
  refine ⟨next₂.trans next₁, prevAll, fun j => (resting₂ j).trans (resting₁ j), free₂.trans free₁, ?_, ?_, ?_⟩
  · split_ifs <;> rfl
  · rw [next₂Own]
    split_ifs <;> rfl
  · rw [prev₂Own]
    split_ifs <;> rfl

def Layout.unlink (layout : Layout n) (side : Side) (price : Price) (i : Fin n) : Layout n where
  queue := setAt layout.queue side price ((layout.queue side price).erase i)
  free := i :: layout.free

section Unlink

variable {orders orders' : OrderPool n} {index : Index n} {levels : Levels n} {layout : Layout n}
  {side : Side} {price : Price} {limit limit' : Limit n} {i : Fin n}

theorem Represents.linked_of_mem (rep : Represents orders index levels layout)
    (member : i ∈ layout.queue side price) : layout.Linked orders i := by
  obtain ⟨rfl, rfl⟩ := rep.located side price i member
  exact member

theorem Represents.nodup (rep : Represents orders index levels layout) (side : Side) (price : Price) :
    (layout.queue side price).Nodup := by
  cases found : levels side price with
  | none =>
      rw [rep.absent side price found]
      exact List.nodup_nil
  | some limit => exact (rep.present side price limit found).2.nodup

theorem Represents.not_mem_other (rep : Represents orders index levels layout) {s : Side} {p : Price}
    (member : i ∈ layout.queue side price) (other : ¬(s = side ∧ p = price)) : i ∉ layout.queue s p := by
  intro inside
  obtain ⟨rfl, rfl⟩ := rep.located s p i inside
  exact other (rep.located side price i member)

theorem Represents.present_setAt (rep : Represents orders index levels layout) {layout' : Layout n}
    (same : ∀ s p, ¬(s = side ∧ p = price) → layout'.queue s p = layout.queue s p)
    (links : ∀ s p, ¬(s = side ∧ p = price) → ∀ j ∈ layout.queue s p,
      nexts orders' j = nexts orders j ∧ prevs orders' j = prevs orders j)
    (own : limit'.price = price ∧
      Queue (nexts orders') (prevs orders') limit'.head limit'.tail (layout'.queue side price))
    (s : Side) (p : Price) (level : Limit n) (at_ : setAt levels side price (some limit') s p = some level) :
    level.price = p ∧ Queue (nexts orders') (prevs orders') level.head level.tail (layout'.queue s p) := by
  by_cases here : s = side ∧ p = price
  · obtain ⟨rfl, rfl⟩ := here
    rw [setAt_same] at at_
    obtain rfl := Option.some.inj at_
    exact own
  · rw [setAt_other _ _ here] at at_
    obtain ⟨levelPrice, queue⟩ := rep.present s p level at_
    rw [same s p here]
    exact ⟨levelPrice, queue.congr (fun j inside => (links s p here j inside).1)
      (fun j inside => (links s p here j inside).2)⟩

theorem Represents.absent_setAt (rep : Represents orders index levels layout) {layout' : Layout n}
    (same : ∀ s p, ¬(s = side ∧ p = price) → layout'.queue s p = layout.queue s p)
    (s : Side) (p : Price) (missing : setAt levels side price (some limit') s p = none) :
    layout'.queue s p = [] := by
  by_cases here : s = side ∧ p = price
  · rw [here.1, here.2, setAt_same] at missing
    cases missing
  · rw [setAt_other _ _ here] at missing
    rw [same s p here]
    exact rep.absent s p missing

theorem Represents.mem_unlink (rep : Represents orders index levels layout)
    (member : i ∈ layout.queue side price) (s : Side) (p : Price) (j : Fin n) :
    j ∈ (layout.unlink side price i).queue s p ↔ j ∈ layout.queue s p ∧ j ≠ i := by
  by_cases here : s = side ∧ p = price
  · obtain ⟨rfl, rfl⟩ := here
    simp only [Layout.unlink, setAt_same, (rep.nodup s p).mem_erase_iff, and_comm]
  · simp only [Layout.unlink, setAt_other _ _ here]
    constructor
    · intro found
      refine ⟨found, ?_⟩
      rintro rfl
      exact rep.not_mem_other member here found
    · exact And.left

theorem deallocate_nexts (orders : OrderPool n) (i : Fin n) :
    nexts (orders.deallocate i) = Function.update (nexts orders) i orders.freeList :=
  modify_nexts orders i fun order => { order with next := orders.freeList }

theorem deallocate_prevs (orders : OrderPool n) (i : Fin n) : prevs (orders.deallocate i) = prevs orders :=
  (modify_prevs orders i fun order => { order with next := orders.freeList }).trans
    (Function.update_eq_self i (prevs orders))

theorem deallocate_resting (orders : OrderPool n) (i j : Fin n) :
    ((orders.deallocate i).pool j).resting = (orders.pool j).resting :=
  modify_resting orders i (fun order => { order with next := orders.freeList }) (fun _ => rfl) j

theorem data_of_resting {a b : Order n} (same : a.resting = b.resting) :
    a.id = b.id ∧ a.price = b.price ∧ a.qty = b.qty ∧ a.side = b.side :=
  ⟨congrArg Resting.id same, congrArg Resting.price same, congrArg Resting.qty same,
    congrArg Resting.side same⟩

theorem Removed.data (removed : Removed limit orders i limit' orders') (j : Fin n) :
    ((orders'.deallocate i).pool j).resting = (orders.pool j).resting :=
  (deallocate_resting orders' i j).trans (removed.resting j)

theorem Represents.unlink_linked (rep : Represents orders index levels layout)
    (member : i ∈ layout.queue side price) (removed : Removed limit orders i limit' orders') (j : Fin n) :
    (layout.unlink side price i).Linked (orders'.deallocate i) j ↔ layout.Linked orders j ∧ j ≠ i := by
  obtain ⟨-, samePrice, -, sameSide⟩ := data_of_resting (removed.data j)
  rw [Layout.Linked, samePrice, sameSide, rep.mem_unlink member]
  rfl

theorem Removed.links_outside (removed : Removed limit orders i limit' orders') {q : List (Fin n)}
    (queue : Queue (nexts orders) (prevs orders) limit.head limit.tail q) (member : i ∈ q) {j : Fin n}
    (outside : j ∉ q) :
    nexts (orders'.deallocate i) j = nexts orders j ∧ prevs (orders'.deallocate i) j = prevs orders j := by
  have other : j ≠ i := fun same => outside (same ▸ member)
  refine ⟨?_, ?_⟩
  · rw [deallocate_nexts, Function.update_of_ne other, removed.next, queue.unlinkNext_outside member outside]
  · rw [deallocate_prevs, removed.prev, queue.unlinkPrev_outside member outside]

theorem Removed.queue (removed : Removed limit orders i limit' orders') {q : List (Fin n)}
    (queue : Queue (nexts orders) (prevs orders) limit.head limit.tail q) (member : i ∈ q) :
    Queue (nexts (orders'.deallocate i)) (prevs (orders'.deallocate i)) limit'.head limit'.tail (q.erase i) := by
  have shorter := queue.unlink member
  rw [← removed.next, ← removed.prev, ← removed.head, ← removed.tail] at shorter
  have erased : i ∉ q.erase i := queue.nodup.not_mem_erase
  refine shorter.congr ?_ ?_
  · rw [deallocate_nexts]
    exact update_outside erased
  · rw [deallocate_prevs]
    exact fun _ _ => rfl

theorem Represents.unlink_index (rep : Represents orders index levels layout)
    (member : i ∈ layout.queue side price) (removed : Removed limit orders i limit' orders') (id : OrderID)
    (j : Fin n) : Function.update index (orders.pool i).id none id = some j ↔
      (layout.unlink side price i).Linked (orders'.deallocate i) j ∧ ((orders'.deallocate i).pool j).id = id := by
  obtain ⟨sameId, -, -, -⟩ := data_of_resting (removed.data j)
  rw [rep.unlink_linked member removed j, sameId]
  by_cases here : id = (orders.pool i).id
  · subst here
    simp only [Function.update_self, reduceCtorEq, false_iff]
    rintro ⟨⟨inside, other⟩, sameIds⟩
    have first := (rep.index _ _).mpr ⟨rep.linked_of_mem member, rfl⟩
    have second := (rep.index _ _).mpr ⟨inside, sameIds⟩
    exact other (Option.some.inj (second.symm.trans first))
  · rw [Function.update_of_ne here, rep.index id j]
    constructor
    · rintro ⟨inside, rfl⟩
      exact ⟨⟨inside, fun same => here (by rw [same])⟩, rfl⟩
    · exact fun ⟨⟨inside, _⟩, ids⟩ => ⟨inside, ids⟩

theorem Represents.unlink (rep : Represents orders index levels layout)
    (found : levels side price = some limit) (member : i ∈ layout.queue side price)
    (removed : Removed limit orders i limit' orders') :
    Represents (orders'.deallocate i) (Function.update index (orders.pool i).id none)
      (setAt levels side price (some limit')) (layout.unlink side price i) := by
  obtain ⟨priceEq, queue⟩ := rep.present side price limit found
  have notFree : i ∉ layout.free := fun free => (rep.cover i).mp free (rep.linked_of_mem member)
  refine ⟨?_, ?_, ?_, ?_, List.nodup_cons.mpr ⟨notFree, rep.freeNodup⟩, ?_, rep.unlink_index member removed⟩
  · intro s p j inside
    obtain ⟨-, samePrice, -, sameSide⟩ := data_of_resting (removed.data j)
    rw [samePrice, sameSide]
    exact rep.located s p j ((rep.mem_unlink member s p j).mp inside).1
  · apply rep.present_setAt fun s p other => setAt_other _ _ other
    · intro s p other j inside
      exact removed.links_outside queue member fun both => rep.not_mem_other both other inside
    · refine ⟨removed.price.trans priceEq, ?_⟩
      simpa only [Layout.unlink, setAt_same] using removed.queue queue member
  · exact rep.absent_setAt fun s p other => setAt_other _ _ other
  · refine ⟨rfl, ?_⟩
    have first : nexts (orders'.deallocate i) i = orders.freeList := by
      rw [deallocate_nexts, Function.update_self, removed.freeList]
    rw [first]
    refine rep.free.congr fun j free => (removed.links_outside queue member fun inside => ?_).1
    exact (rep.cover j).mp free (rep.linked_of_mem inside)
  · intro j
    simp only [Layout.unlink, List.mem_cons, rep.cover j]
    rw [← Layout.unlink, rep.unlink_linked member removed j]
    by_cases same : j = i <;> simp [same]

end Unlink

section Writes

variable {orders orders' : OrderPool n} {index : Index n} {levels : Levels n} {layout : Layout n}
  {side : Side} {price : Price} {limit limit' : Limit n} {i : Fin n}

theorem Represents.setQty (rep : Represents orders index levels layout) (i : Fin n)
    (value : Quantity → Quantity) :
    Represents (orders.modify i fun order => { order with qty := value order.qty }) index levels layout := by
  have next : nexts (orders.modify i fun order => { order with qty := value order.qty }) = nexts orders :=
    (modify_nexts orders i _).trans (Function.update_eq_self i (nexts orders))
  have prev : prevs (orders.modify i fun order => { order with qty := value order.qty }) = prevs orders :=
    (modify_prevs orders i _).trans (Function.update_eq_self i (prevs orders))
  have data : ∀ j, ((orders.modify i fun order => { order with qty := value order.qty }).pool j).id =
        (orders.pool j).id ∧
      ((orders.modify i fun order => { order with qty := value order.qty }).pool j).price =
        (orders.pool j).price ∧
      ((orders.modify i fun order => { order with qty := value order.qty }).pool j).side =
        (orders.pool j).side := by
    intro j
    by_cases here : j = i
    · subst here
      simp [OrderPool.modify]
    · simp [OrderPool.modify, here]
  have freeList : (orders.modify i fun order => { order with qty := value order.qty }).freeList =
    orders.freeList := rfl
  generalize orders.modify i (fun order => { order with qty := value order.qty }) = written at *
  have linked : ∀ j, layout.Linked written j ↔ layout.Linked orders j := by
    intro j
    rw [Layout.Linked, (data j).2.1, (data j).2.2]
    rfl
  refine ⟨?_, ?_, rep.absent, ?_, rep.freeNodup, ?_, ?_⟩
  · intro s p j inside
    rw [(data j).2.1, (data j).2.2]
    exact rep.located s p j inside
  · rw [next, prev]
    exact rep.present
  · rw [next, freeList]
    exact rep.free
  · intro j
    rw [linked j]
    exact rep.cover j
  · intro id j
    rw [linked j, (data j).1]
    exact rep.index id j

theorem Represents.replaceLevel (rep : Represents orders index levels layout) (entry : Option (Limit n))
    (some_ : ∀ level, entry = some level → level.price = price ∧
      Queue (nexts orders) (prevs orders) level.head level.tail (layout.queue side price))
    (none_ : entry = none → layout.queue side price = []) :
    Represents orders index (setAt levels side price entry) layout := by
  refine ⟨rep.located, ?_, ?_, rep.free, rep.freeNodup, rep.cover, rep.index⟩
  · intro s p level at_
    by_cases here : s = side ∧ p = price
    · obtain ⟨rfl, rfl⟩ := here
      exact some_ level (by rwa [setAt_same] at at_)
    · rw [setAt_other _ _ here] at at_
      exact rep.present s p level at_
  · intro s p none
    by_cases here : s = side ∧ p = price
    · obtain ⟨rfl, rfl⟩ := here
      exact none_ (by rwa [setAt_same] at none)
    · rw [setAt_other _ _ here] at none
      exact rep.absent s p none

theorem Represents.setVolume (rep : Represents orders index levels layout)
    (found : levels side price = some limit) (volume : Quantity) :
    Represents orders index (setAt levels side price (some { limit with totalVolume := volume })) layout := by
  refine rep.replaceLevel _ (fun level same => ?_) nofun
  obtain rfl := Option.some.inj same
  exact rep.present side price limit found

theorem Represents.evict (rep : Represents orders index levels layout)
    (found : levels side price = some limit) (vacant : limit.head = none) :
    Represents orders index (setAt levels side price none) layout := by
  refine rep.replaceLevel none nofun fun _ => ?_
  obtain ⟨-, queue⟩ := rep.present side price limit found
  exact List.head?_eq_none_iff.mp (queue.head_eq.symm.trans vacant)

theorem Represents.openLevel (rep : Represents orders index levels layout)
    (missing : levels side price = none) :
    Represents orders index (setAt levels side price (some { price })) layout := by
  refine rep.replaceLevel _ (fun level same => ?_) nofun
  obtain rfl := Option.some.inj same
  rw [rep.absent side price missing]
  exact ⟨rfl, queue_nil _ _⟩

end Writes

/-! ## Entering a new order -/

structure Appended (limit : Limit n) (orders : OrderPool n) (i : Fin n) (q : List (Fin n))
    (limit' : Limit n) (orders' : OrderPool n) : Prop where
  queue : Queue (nexts orders') (prevs orders') limit'.head limit'.tail (q ++ [i])
  next : ∀ j, j ∉ q → j ≠ i → nexts orders' j = nexts orders j
  prev : ∀ j, j ∉ q → j ≠ i → prevs orders' j = prevs orders j
  resting : ∀ j, (orders'.pool j).resting = (orders.pool j).resting
  freeList : orders'.freeList = orders.freeList
  price : limit'.price = limit.price

theorem append_appended {limit : Limit n} {orders : OrderPool n} {i : Fin n} {q : List (Fin n)}
    (queue : Queue (nexts orders) (prevs orders) limit.head limit.tail q) (fresh : i ∉ q)
    (noNext : nexts orders i = none) (noPrev : prevs orders i = none) :
    ∃ limit' orders', limit.append orders i = some (limit', orders') ∧
      Appended limit orders i q limit' orders' := by
  cases q with
  | nil =>
      have vacant : limit.head = none := queue.head_eq
      let longer : Limit n :=
        { limit with
          head := some i, tail := some i, totalVolume := limit.totalVolume + (orders.pool i).qty }
      have result : limit.append orders i = some (longer, orders) := by
        simp only [Limit.append, vacant, longer]
      refine ⟨_, _, result, Queue.singleton noNext noPrev, ?_, ?_, ?_, rfl, rfl⟩
      all_goals intros; rfl
  | cons first q =>
      have hasHead : limit.head = some first := queue.head_eq
      obtain ⟨tail, hasTail⟩ : ∃ tail, limit.tail = some tail :=
        ⟨_, queue.tail_eq.trans (List.getLast?_eq_some_getLast (List.cons_ne_nil first q))⟩
      have tailMem : tail ∈ first :: q := List.mem_of_getLast? (queue.tail_eq.symm.trans hasTail)
      have otherNode : i ≠ tail := fun same => fresh (same ▸ tailMem)
      let linked := orders.modify tail fun last => { last with next := some i }
      let both := linked.modify i fun added => { added with prev := some tail }
      let longer : Limit n :=
        { limit with tail := some i, totalVolume := limit.totalVolume + (both.pool i).qty }
      have result : limit.append orders i = some (longer, both) := by
        simp only [Limit.append, hasHead, hasTail, longer, both, linked]
      have next : nexts both = Function.update (nexts orders) tail (some i) := by
        rw [modify_nexts]
        exact (Function.update_eq_self i (nexts linked)).trans (modify_nexts orders tail _)
      have prev : prevs both = Function.update (prevs orders) i (some tail) := by
        rw [modify_prevs]
        have same : prevs linked = prevs orders :=
          (modify_prevs orders tail _).trans (Function.update_eq_self tail (prevs orders))
        rw [same]
      refine ⟨_, _, result, ?_, ?_, ?_, ?_, rfl, rfl⟩
      · rw [next, prev]
        rw [hasTail] at queue
        exact queue.append fresh noNext
      · intro j outside _
        have other : j ≠ tail := fun same => outside (same ▸ tailMem)
        rw [next, Function.update_of_ne other]
      · intro j _ other
        rw [prev, Function.update_of_ne other]
      · intro j
        have first : (both.pool j).resting = (linked.pool j).resting := by
          apply modify_resting
          exact fun _ => rfl
        have second : (linked.pool j).resting = (orders.pool j).resting := by
          apply modify_resting
          exact fun _ => rfl
        exact first.trans second

theorem allocate_spec {orders : OrderPool n} {i : Fin n} {free : List (Fin n)} (order : Resting)
    (chain : Chain (nexts orders) orders.freeList (i :: free)) :
    ∃ detached, orders.allocate = some (i, detached) ∧
      let written := detached.modify i fun node =>
        { node with id := order.id, price := order.price, qty := order.qty, side := order.side }
      nexts written = Function.update (nexts orders) i none ∧
      prevs written = Function.update (prevs orders) i none ∧
      written.freeList = nexts orders i ∧
      (∀ j, (written.pool j).resting = if j = i then order else (orders.pool j).resting) := by
  have first : orders.freeList = some i := chain.1
  let rest := { orders with freeList := (orders.pool i).next }
  let detached := rest.modify i fun node => { node with prev := none, next := none }
  have allocated : orders.allocate = some (i, detached) := by
    simp only [OrderPool.allocate, first]
    rfl
  refine ⟨detached, allocated, ?_, ?_, rfl, ?_⟩
  · rw [modify_nexts]
    exact (Function.update_eq_self i (nexts detached)).trans (modify_nexts rest i _)
  · rw [modify_prevs]
    exact (Function.update_eq_self i (prevs detached)).trans (modify_prevs rest i _)
  · intro j
    by_cases here : j = i
    · subst here
      simp [OrderPool.modify, Order.resting]
    · simp [OrderPool.modify, here, detached, rest]

def Layout.enter (layout : Layout n) (side : Side) (price : Price) (i : Fin n) : Layout n where
  queue := setAt layout.queue side price (layout.queue side price ++ [i])
  free := layout.free.tail

section Enter

variable {orders written orders' : OrderPool n} {index : Index n} {levels : Levels n} {layout : Layout n}
  {limit limit' : Limit n} {i : Fin n} {free : List (Fin n)}

theorem Layout.mem_enter (layout : Layout n) {side : Side} {price : Price}
    (s : Side) (p : Price) (j : Fin n) :
    j ∈ (layout.enter side price i).queue s p ↔
      j ∈ layout.queue s p ∨ (j = i ∧ s = side ∧ p = price) := by
  by_cases here : s = side ∧ p = price
  · obtain ⟨rfl, rfl⟩ := here
    simp [Layout.enter]
  · simp only [Layout.enter, setAt_other _ _ here]
    simp [here]

theorem enter_linked {order : Resting} (dataI : (orders'.pool i).resting = order)
    (dataOther : ∀ j, j ≠ i → (orders'.pool j).resting = (orders.pool j).resting) (j : Fin n) :
    (layout.enter order.side order.price i).Linked orders' j ↔ layout.Linked orders j ∨ j = i := by
  rw [Layout.Linked, layout.mem_enter]
  by_cases same : j = i
  · subst same
    have side : (orders'.pool j).side = order.side := congrArg Resting.side dataI
    have price : (orders'.pool j).price = order.price := congrArg Resting.price dataI
    simp [side, price]
  · obtain ⟨-, samePrice, -, sameSide⟩ := data_of_resting (dataOther j same)
    rw [samePrice, sameSide]
    simp [same, Layout.Linked]

theorem Represents.enter_index (rep : Represents orders index levels layout) {order : Resting}
    (isFree : i ∈ layout.free) (newId : index order.id = none) (dataI : (orders'.pool i).resting = order)
    (dataOther : ∀ j, j ≠ i → (orders'.pool j).resting = (orders.pool j).resting) (id : OrderID) (j : Fin n) :
    Function.update index order.id (some i) id = some j ↔
      (layout.enter order.side order.price i).Linked orders' j ∧ (orders'.pool j).id = id := by
  rw [enter_linked dataI dataOther j]
  by_cases same : j = i
  · subst same
    have ownId : (orders'.pool j).id = order.id := congrArg Resting.id dataI
    by_cases here : id = order.id
    · simp [here, ownId]
    · rw [Function.update_of_ne here, rep.index id j]
      constructor
      · exact fun queued => absurd queued.1 ((rep.cover j).mp isFree)
      · exact fun own => absurd (own.2.symm.trans ownId) here
  · obtain ⟨sameId, -, -, -⟩ := data_of_resting (dataOther j same)
    rw [sameId, or_iff_left same]
    by_cases here : id = order.id
    · subst here
      have other : i ≠ j := fun eq => same eq.symm
      simp only [Function.update_self, Option.some.injEq, other, false_iff]
      intro queued
      have taken := (rep.index _ _).mpr queued
      rw [newId] at taken
      cases taken
    · rw [Function.update_of_ne here]
      exact rep.index id j

theorem Represents.enter (rep : Represents orders index levels layout) (order : Resting)
    (isFree : layout.free = i :: free) (newId : index order.id = none)
    (found : levels order.side order.price = some limit)
    (next : nexts written = Function.update (nexts orders) i none)
    (prev : prevs written = Function.update (prevs orders) i none)
    (freeList : written.freeList = nexts orders i)
    (resting : ∀ j, (written.pool j).resting = if j = i then order else (orders.pool j).resting)
    (appended : Appended limit written i (layout.queue order.side order.price) limit' orders') :
    Represents orders' (Function.update index order.id (some i))
      (setAt levels order.side order.price (some limit')) (layout.enter order.side order.price i) := by
  have freeI : i ∈ layout.free := isFree ▸ List.mem_cons_self
  have notQueued : ∀ s p, i ∉ layout.queue s p := fun s p inside =>
    (rep.cover i).mp freeI (rep.linked_of_mem inside)
  have dataI : (orders'.pool i).resting = order := by
    rw [appended.resting, resting, if_pos rfl]
  have dataOther : ∀ j, j ≠ i → (orders'.pool j).resting = (orders.pool j).resting := by
    intro j other
    rw [appended.resting, resting, if_neg other]
  have linked : ∀ j, (layout.enter order.side order.price i).Linked orders' j ↔ layout.Linked orders j ∨ j = i :=
    enter_linked dataI dataOther
  have nextOutside : ∀ j, j ∉ layout.queue order.side order.price → j ≠ i →
      nexts orders' j = nexts orders j := by
    intro j outside other
    rw [appended.next j outside other, next, Function.update_of_ne other]
  have prevOutside : ∀ j, j ∉ layout.queue order.side order.price → j ≠ i →
      prevs orders' j = prevs orders j := by
    intro j outside other
    rw [appended.prev j outside other, prev, Function.update_of_ne other]
  have nodup := rep.freeNodup
  rw [isFree] at nodup
  obtain ⟨notRest, restNodup⟩ := List.nodup_cons.mp nodup
  have rest : (layout.enter order.side order.price i).free = free := by
    simp [Layout.enter, isFree]
  refine ⟨?_, ?_, ?_, ?_, ?_, ?_, ?_⟩
  · intro s p j inside
    rcases (layout.mem_enter s p j).mp inside with old | ⟨rfl, rfl, rfl⟩
    · have other : j ≠ i := fun same => notQueued s p (same ▸ old)
      obtain ⟨-, samePrice, -, sameSide⟩ := data_of_resting (dataOther j other)
      rw [samePrice, sameSide]
      exact rep.located s p j old
    · exact ⟨congrArg Resting.side dataI, congrArg Resting.price dataI⟩
  · apply rep.present_setAt fun s p other => setAt_other _ _ other
    · intro s p other j inside
      have outside : j ∉ layout.queue order.side order.price := fun both => rep.not_mem_other both other inside
      have differs : j ≠ i := fun same => notQueued s p (same ▸ inside)
      exact ⟨nextOutside j outside differs, prevOutside j outside differs⟩
    · simp only [Layout.enter, setAt_same]
      exact ⟨appended.price.trans (rep.present _ _ limit found).1, appended.queue⟩
  · exact rep.absent_setAt fun s p other => setAt_other _ _ other
  · have chain := rep.free
    rw [isFree] at chain
    rw [rest, appended.freeList, freeList]
    refine chain.2.congr fun j inside => nextOutside j ?_ fun same => notRest (same ▸ inside)
    exact fun queued => (rep.cover j).mp (isFree ▸ List.mem_cons_of_mem i inside) (rep.linked_of_mem queued)
  · rw [rest]
    exact restNodup
  · intro j
    rw [rest, linked j, not_or, ← rep.cover j, isFree, List.mem_cons]
    constructor
    · exact fun inside => ⟨Or.inr inside, fun same => notRest (same ▸ inside)⟩
    · exact fun ⟨either, other⟩ => either.resolve_left other
  · exact rep.enter_index freeI newId dataI dataOther

end Enter

end KnowledgeAcquisition.Proof.HFT
