import KnowledgeAcquisition.Proof.HFT.Matching

/-!
# The order book refines price-time priority

What can be observed of a valid book, and `limit_order` and `cancel_order` against the reference.
-/

namespace KnowledgeAcquisition.Proof.HFT
open KnowledgeAcquisition.HFT OrderBook Library Links

variable {n : Nat}

theorem follow_segment {orders : OrderPool n} {earlier : Option (Fin n)} {q : List (Fin n)}
    (segment : Segment (nexts orders) (prevs orders) earlier q none) {bound : Nat}
    (fits : q.length ≤ bound) : orders.follow bound q.head? = q := by
  induction q generalizing earlier bound with
  | nil => cases bound <;> rfl
  | cons i q ih =>
      obtain ⟨-, forward, later⟩ := segment
      cases bound with
      | zero => simp at fits
      | succ bound =>
          have step : (orders.pool i).next = q.head? := forward.trans (Option.or_none)
          rw [List.head?_cons, OrderPool.follow, step, ih later (by simpa using fits)]

section Observe

variable {book : OrderBook n} {layout : Layout n} {side : Side}

theorem Valid.resting_eq (valid : Valid book layout) (side : Side) :
    book.resting side = view book layout side := by
  rw [OrderBook.resting, view, OrderedMap.keys, List.flatMap_map]
  rw [List.flatMap_def, List.flatMap_def]
  congr 1
  apply List.map_congr_left
  rintro ⟨price, limit⟩ member
  have found : levelsOf book side price = some limit := (OrderedMap.find?_eq_some_iff _).mpr member
  obtain ⟨-, queue⟩ := valid.rep.present side price limit found
  have fits := queue.nodup.length_le_card
  rw [Fintype.card_fin] at fits
  show (book.pool.follow n limit.head).map _ = _
  rw [queue.head_eq, follow_segment queue.linked fits]
  rfl

theorem Valid.index_none_iff (valid : Valid book layout) {id : OrderID} :
    book.orderMap id = none ↔ ∀ side, ∀ order ∈ view book layout side, order.id ≠ id := by
  constructor
  · intro none side order member same
    rw [view_eq_map] at member
    obtain ⟨i, inside, rfl⟩ := List.mem_map.mp member
    have taken := (valid.rep.index id i).mpr ⟨(valid.mem_nodes.mp inside).1, same⟩
    rw [none] at taken
    cases taken
  · intro unused
    cases taken : book.orderMap id with
    | none => rfl
    | some i =>
        obtain ⟨linked, same⟩ := (valid.rep.index id i).mp taken
        have member : (book.pool.pool i).resting ∈ view book layout (book.pool.pool i).side := by
          rw [view_eq_map]
          exact List.mem_map_of_mem (valid.mem_nodes.mpr ⟨linked, rfl⟩)
        exact absurd same (unused _ _ member)

end Observe

/-! ## Booking -/

theorem crosses_beyond {side : Side} {price best worse : Price} (refused : crosses side price best = false)
    (beyond : before side.opposite best worse) : crosses side price worse = false := by
  cases side
  · simp only [crosses, Side.opposite, before] at *
    grind
  · simp only [crosses, Side.opposite, before] at *
    grind

section Booking

variable {book : OrderBook n} {layout : Layout n} {side : Side} {id : OrderID} {price : Price}
  {remaining : Quantity}

theorem rest_exhausted (valid : Valid book layout) (exhausted : layout.free = []) :
    book.rest id price remaining side = some book := by
  have empty : book.pool.freeList = none := by
    have chain := valid.rep.free
    rwa [exhausted] at chain
  simp [OrderBook.rest, OrderPool.allocate, empty]

theorem openLevel_find (limits : LimitMap n side) (price : Price) :
    ∃ limit, (openLevel limits price).find? price = some limit ∧
      (∀ final : Limit n, (openLevel limits price).assign price final = limits.assign price final) ∧
      (limits.find? price = some limit ∨ limits.find? price = none ∧ limit = { price }) := by
  unfold openLevel
  cases found : limits.find? price with
  | none =>
      refine ⟨{ price }, ?_, fun final => OrderedMap.assign_assign limits price _ final, Or.inr ⟨rfl, rfl⟩⟩
      simp [OrderedMap.find?_assign]
  | some limit => exact ⟨limit, found, fun _ => rfl, Or.inl rfl⟩

theorem setLimits_orderMap (book : OrderBook n) (side : Side) (limits : LimitMap n side) :
    (book.setLimits side limits).orderMap = book.orderMap := by
  cases side <;> rfl

theorem levelsOf_assign (book : OrderBook n) (side : Side) (price : Price) (level : Limit n)
    (pool : OrderPool n) (index : Index n) :
    levelsOf { book.setLimits side ((book.limits side).assign price level) with pool, orderMap := index } =
      setAt (levelsOf book) side price (some level) := by
  funext s p
  by_cases own : s = side
  · subst own
    simp only [levelsOf, limits_pool, limits_setLimits, setAt, true_and, OrderedMap.find?_assign]
  · have away : ¬(s = side ∧ p = price) := fun both => own both.1
    simp only [levelsOf, limits_pool, limits_setLimits_other book _ own, setAt, if_neg away]

theorem ordersAt_enter (side : Side) (price : Price) {orders orders' : OrderPool n} {index : Index n}
    {levels : Levels n} (rep : Represents orders index levels layout) {i : Fin n} {order : Resting} (isFree : i ∈ layout.free)
    (resting : ∀ j, (orders'.pool j).resting = if j = i then order else (orders.pool j).resting) (s : Side) :
    ordersAt orders' (layout.enter side price i) s = if s = side then
      Function.update (ordersAt orders layout s) price (ordersAt orders layout s price ++ [order])
      else ordersAt orders layout s := by
  have kept : ∀ s p, (layout.queue s p).map (fun j => (orders'.pool j).resting) = ordersAt orders layout s p := by
    intro s p
    apply List.map_congr_left
    intro j inside
    have other : j ≠ i := by
      rintro rfl
      exact (rep.cover j).mp isFree (rep.linked_of_mem inside)
    rw [resting, if_neg other]
  funext p
  by_cases own : s = side
  · subst own
    by_cases here : p = price
    · subst here
      have entered : (orders'.pool i).resting = order := by rw [resting, if_pos rfl]
      rw [if_pos rfl, Function.update_self, ← kept s p]
      simp only [ordersAt, Layout.enter, setAt_same, List.map_append, List.map_cons, List.map_nil, entered]
    · have away : ¬(s = s ∧ p = price) := fun both => here both.2
      simp only [ordersAt, Layout.enter, setAt_other _ _ away, kept, if_true, Function.update_of_ne here]
  · have away : ¬(s = side ∧ p = price) := fun both => own both.1
    simp only [ordersAt, Layout.enter, setAt_other _ _ away, kept, if_neg own]

/-! The book `book'` has the order entered at `(side, price)`, and its other side is that of `book`. -/

theorem nonempty_enter (valid : Valid book layout) {book' : OrderBook n} {i : Fin n}
    (ownKeys : (book'.limits side).keys = OrderedMap.insertKey (before side) price (book.limits side).keys)
    (otherLimits : book'.limits side.opposite = book.limits side.opposite) (s : Side) (p : Price)
    (member : p ∈ (book'.limits s).keys) : (layout.enter side price i).queue s p ≠ [] := by
  by_cases here : s = side ∧ p = price
  · obtain ⟨rfl, rfl⟩ := here
    simp [Layout.enter]
  · simp only [Layout.enter, setAt_other _ _ here]
    apply valid.nonempty
    by_cases own : s = side
    · subst own
      rw [ownKeys, OrderedMap.mem_insertKey] at member
      exact member.resolve_left fun same => here ⟨rfl, same⟩
    · obtain rfl := eq_opposite own
      rwa [otherLimits] at member

theorem positive_enter (valid : Valid book layout) {pool : OrderPool n} {layout' : Layout n} {entered : Resting}
    (orders : ∀ s, ordersAt pool layout' s = if s = side then
      Function.update (ordersAt book.pool layout s) price (ordersAt book.pool layout s price ++ [entered])
      else ordersAt book.pool layout s) (pending : entered.qty ≠ 0) (s : Side) (p : Price) (order : Resting)
    (member : order ∈ ordersAt pool layout' s p) : order.qty ≠ 0 := by
  rw [orders s] at member
  split_ifs at member with own
  · by_cases here : p = price
    · rw [here, Function.update_self] at member
      cases List.mem_append.mp member with
      | inl old => exact valid.positive s price order old
      | inr new =>
          rw [List.mem_singleton.mp new]
          exact pending
    · rw [Function.update_of_ne here] at member
      exact valid.positive s p order member
  · exact valid.positive s p order member

theorem uncrossed_enter (valid : Valid book layout) {book' : OrderBook n}
    (ownKeys : (book'.limits side).keys = OrderedMap.insertKey (before side) price (book.limits side).keys)
    (otherLimits : book'.limits side.opposite = book.limits side.opposite)
    (clear : ∀ p ∈ (book.limits side.opposite).keys, crosses side price p = false) (bid : Price)
    (buy : bid ∈ (book'.limits .buy).keys) (ask : Price) (sell : ask ∈ (book'.limits .sell).keys) : bid < ask := by
  cases side with
  | buy =>
      rw [show (book'.limits .sell) = book.limits .sell from otherLimits] at sell
      rw [ownKeys, OrderedMap.mem_insertKey] at buy
      cases buy with
      | inl new =>
          rw [new]
          simpa [crosses] using clear ask sell
      | inr old => exact valid.uncrossed bid old ask sell
  | sell =>
      rw [show (book'.limits .buy) = book.limits .buy from otherLimits] at buy
      rw [ownKeys, OrderedMap.mem_insertKey] at sell
      cases sell with
      | inl new =>
          rw [new]
          simpa [crosses] using clear bid buy
      | inr old => exact valid.uncrossed bid buy ask old

theorem Counted.opened (counted : Counted book layout) (valid : Valid book layout) {limit : Limit n}
    (origin : (book.limits side).find? price = some limit ∨
      (book.limits side).find? price = none ∧ limit = { price }) : Tallied book.pool layout side price limit := by
  rcases origin with present | ⟨missing, rfl⟩
  · exact counted side price limit present
  · rw [Tallied, ordersAt, valid.rep.absent side price missing]
    rfl

theorem counted_enter (counted : Counted book layout) {pool : OrderPool n} {index : Index n} {layout' : Layout n}
    {entered : Resting} {limit limit' : Limit n}
    (orders : ∀ s, ordersAt pool layout' s = if s = side then
      Function.update (ordersAt book.pool layout s) price (ordersAt book.pool layout s price ++ [entered])
      else ordersAt book.pool layout s)
    (tallied : Tallied book.pool layout side price limit)
    (volume : limit'.totalVolume = limit.totalVolume + entered.qty) :
    Counted { book.setLimits side ((book.limits side).assign price limit') with pool, orderMap := index } layout' := by
  intro s p level found
  rw [levelsOf_assign] at found
  by_cases here : s = side ∧ p = price
  · obtain ⟨rfl, rfl⟩ := here
    rw [setAt_same] at found
    obtain rfl := Option.some.inj found
    rw [Tallied, orders s, if_pos rfl, Function.update_self, List.map_append, List.sum_append, volume, tallied]
    simp
  · rw [setAt_other _ _ here] at found
    have same : ordersAt pool layout' s p = ordersAt book.pool layout s p := by
      rw [orders s]
      split_ifs with own
      · rw [Function.update_of_ne fun at_ => here ⟨own, at_⟩]
      · rfl
    rw [Tallied, same]
    exact counted s p level found

theorem Valid.opened (valid : Valid book layout) {limit : Limit n}
    (origin : (book.limits side).find? price = some limit ∨
      (book.limits side).find? price = none ∧ limit = { price }) :
    Represents book.pool book.orderMap (setAt (levelsOf book) side price (some limit)) layout := by
  rcases origin with present | ⟨missing, rfl⟩
  · rw [setAt_eq_self (f := levelsOf book) present]
    exact valid.rep
  · exact valid.rep.openLevel missing

theorem rest_enters (valid : Valid book layout) {i : Fin n} {free : List (Fin n)}
    (isFree : layout.free = i :: free) (newId : book.orderMap id = none) (pending : remaining ≠ 0)
    (clear : ∀ p ∈ (book.limits side.opposite).keys, crosses side price p = false) :
    ∃ book', book.rest id price remaining side = some book' ∧
      Valid book' (layout.enter side price i) ∧
      view book' (layout.enter side price i) side =
        Reference.place side ⟨id, price, remaining, side⟩ (view book layout side) ∧
      view book' (layout.enter side price i) side.opposite = view book layout side.opposite ∧
      (Counted book layout → Counted book' (layout.enter side price i)) := by
  have chain := valid.rep.free
  rw [isFree] at chain
  obtain ⟨detached, allocated, next, prev, freeList, resting⟩ :=
    allocate_spec ⟨id, price, remaining, side⟩ chain
  obtain ⟨limit, found, reassign, origin⟩ := openLevel_find (book.limits side) price
  have freeI : i ∈ layout.free := isFree ▸ List.mem_cons_self
  have outside : i ∉ layout.queue side price := fun inside =>
    (valid.rep.cover i).mp freeI (valid.rep.linked_of_mem inside)
  have opened := valid.opened origin
  set written := detached.modify i fun order => { order with id, price, qty := remaining, side } with writtenEq
  have queue : Queue (nexts written) (prevs written) limit.head limit.tail (layout.queue side price) := by
    refine (opened.present _ _ _ (setAt_same _ _ _ _)).2.congr ?_ ?_
    · rw [next]
      exact update_outside outside
    · rw [prev]
      exact update_outside outside
  obtain ⟨limit', pool, append, appended⟩ := append_appended queue outside (by simp [next]) (by simp [prev])
  have entered := opened.enter ⟨id, price, remaining, side⟩ isFree newId (setAt_same _ _ _ _) next prev
    freeList resting appended
  rw [setAt_setAt] at entered
  have orders := ordersAt_enter side price valid.rep freeI
    (fun j => (appended.resting j).trans (resting j))
  let book' : OrderBook n :=
    { book.setLimits side ((book.limits side).assign price limit') with
      pool, orderMap := Function.update book.orderMap id (some i) }
  have result : book.rest id price remaining side = some book' := by
    simp only [OrderBook.rest, allocated, found, ← writtenEq, append, reassign, Option.bind_eq_bind,
      Option.bind_some, setLimits_orderMap, book']
  have ownKeys : (book'.limits side).keys =
      OrderedMap.insertKey (before side) price (book.limits side).keys := by
    simp only [book', limits_pool, limits_setLimits, OrderedMap.keys_assign]
  have otherLimits : book'.limits side.opposite = book.limits side.opposite := by
    simp only [book', limits_pool]
    exact limits_setLimits_other book _ (opposite_ne side).symm
  refine ⟨book', result, ⟨?_, nonempty_enter valid ownKeys otherLimits, positive_enter valid orders pending,
    uncrossed_enter valid ownKeys otherLimits clear⟩, ?_, ?_, ?_⟩
  · rw [levelsOf_assign]
    exact entered
  · rw [view, ownKeys, show book'.pool = pool from rfl, orders side, if_pos rfl, view]
    refine (place_levels ⟨id, price, remaining, side⟩ (book.limits side).keys_sorted ?_ ?_).symm
    · exact fun p order member => (valid.rep.priced member).1
    · intro absent
      rw [ordersAt, valid.rep.absent side price ((OrderedMap.find?_eq_none_iff _).mpr absent), List.map_nil]
  · rw [view, otherLimits, show book'.pool = pool from rfl, orders side.opposite,
      if_neg (opposite_ne side).symm, view]
  · intro counted
    have qty : (written.pool i).qty = remaining := by
      have own := resting i
      rw [if_pos rfl] at own
      exact congrArg Resting.qty own
    exact counted_enter counted orders (counted.opened valid origin) (qty ▸ append_volume append)

end Booking

/-- The book and the reference hold the same orders, at the same places of the queues. -/
structure Refines (book : OrderBook n) (layout : Layout n) (reference : Reference) : Prop where
  valid : Valid book layout
  same : ∀ side, view book layout side = reference.side side

section Calls

variable {book : OrderBook n} {layout : Layout n} {reference : Reference}

theorem Refines.size_add_free (refines : Refines book layout reference) :
    reference.size + layout.free.length = n := by
  have count := refines.valid.count
  rwa [refines.same, refines.same] at count

theorem Refines.clear {side : Side} {price : Price} (valid : Valid book layout)
    (refused : ∀ order ∈ (view book layout side.opposite).head?, crosses side price order.price = false) :
    ∀ p ∈ (book.limits side.opposite).keys, crosses side price p = false := by
  intro p member
  obtain ⟨best, later, keys⟩ := List.exists_cons_of_ne_nil (List.ne_nil_of_mem member)
  have occupied := valid.nonempty side.opposite best (keys ▸ List.mem_cons_self)
  obtain ⟨i, q, queue⟩ := List.exists_cons_of_ne_nil occupied
  have first : (view book layout side.opposite).head? = some (book.pool.pool i).resting := by
    rw [view, keys, List.flatMap_cons, ordersAt, queue]
    rfl
  have atPrice : (book.pool.pool i).price = best :=
    (valid.rep.located side.opposite best i (queue ▸ List.mem_cons_self)).2
  have atBest : crosses side price best = false := by
    rw [← atPrice]
    exact refused _ first
  have sorted := (book.limits side.opposite).keys_sorted
  rw [keys] at sorted member
  rcases List.mem_cons.mp member with rfl | inLater
  · exact atBest
  · exact crosses_beyond atBest (List.rel_of_pairwise_cons sorted inLater)

theorem Refines.sweep (refines : Refines book layout reference) {fuel : Nat} (enough : n < fuel) (price : Price)
    (qty : Quantity) (side : Side) :
    ∃ residual swept layout', Loop.run (sweepLevel fuel price side) fuel (qty, book) = some (residual, swept) ∧
      Reference.fill (crosses side price) qty (reference.side side.opposite) =
        (residual, view swept layout' side.opposite) ∧
      Refines swept layout' (reference.setSide side.opposite (view swept layout' side.opposite)) ∧
      (Counted book layout → Counted swept layout') := by
  let target := Reference.fill (crosses side price) qty (reference.side side.opposite)
  have start : SweepInv side price (reference.side side) target qty book layout :=
    ⟨refines.valid, refines.same side, by rw [refines.same side.opposite]⟩
  obtain ⟨⟨residual, swept⟩, run, layout', valid, own, opposite, keeps⟩ := sweep_total fuel enough start
  refine ⟨residual, swept, layout', run, opposite.symm, ⟨valid, fun s => ?_⟩, keeps⟩
  by_cases here : s = side.opposite
  · subst here
    rw [side_setSide]
  · obtain rfl := eq_of_ne_opposite here
    rw [side_setSide_other _ _ here]
    exact own

theorem Refines.setSide (refines : Refines book layout reference) {book' : OrderBook n} {layout' : Layout n}
    {side : Side} {orders : List Resting} (valid : Valid book' layout') (changed : view book' layout' side = orders)
    (kept : view book' layout' side.opposite = view book layout side.opposite) :
    Refines book' layout' (reference.setSide side orders) := by
  refine ⟨valid, fun s => ?_⟩
  by_cases here : s = side
  · subst here
    rw [side_setSide, changed]
  · obtain rfl := eq_opposite here
    rw [side_setSide_other _ _ here, kept, refines.same]

/-- After its sweep an incoming order has nothing left to book, finds no node, or has an identifier of its own. -/
def Apart (capacity : Nat) (reference : Reference) (id : OrderID) (price : Price) (qty : Quantity)
    (side : Side) : Prop :=
  let (residual, left) := Reference.fill (crosses side price) qty (reference.side side.opposite)
  residual = 0 ∨ capacity ≤ left.length + (reference.side side).length ∨
    ∀ order ∈ left ++ reference.side side, order.id ≠ id

instance (capacity : Nat) (reference : Reference) (id : OrderID) (price : Price) (qty : Quantity) (side : Side) :
    Decidable (Apart capacity reference id price qty side) :=
  inferInstanceAs (Decidable (_ ∨ _ ∨ ∀ order ∈ _, Resting.id order ≠ id))

theorem size_setSide (reference : Reference) (side : Side) (orders : List Resting) :
    (reference.setSide side.opposite orders).size = orders.length + (reference.side side).length := by
  cases side with
  | buy => exact Nat.add_comm _ _
  | sell => rfl

theorem limitOrder_refines (refines : Refines book layout reference) (fuel : Nat) (enough : n < fuel)
    {id : OrderID} {price : Price} {qty : Quantity} {side : Side} (apart : Apart n reference id price qty side) :
    ∃ book' layout', book.limitOrder fuel id price qty side = some book' ∧
      Refines book' layout' (reference.limitOrder n id price qty side) ∧
      (Counted book layout → Counted book' layout') := by
  obtain ⟨residual, swept, layout₁, run, filled, refines₁, keeps⟩ := refines.sweep enough price qty side
  unfold OrderBook.limitOrder Reference.limitOrder
  simp only [run, filled, Option.bind_eq_bind, Option.bind_some]
  by_cases used : residual = 0
  · exact ⟨swept, layout₁, by rw [if_pos used], by rw [if_pos (Or.inl used)]; exact refines₁, keeps⟩
  · rw [if_neg used]
    have size := refines₁.size_add_free
    cases free : layout₁.free with
    | nil =>
        rw [free, List.length_nil] at size
        refine ⟨swept, layout₁, rest_exhausted refines₁.valid free, ?_, keeps⟩
        rw [if_pos (Or.inr (by omega))]
        exact refines₁
    | cons i later =>
        rw [free, List.length_cons] at size
        have sweeps := fill_sweeps (crosses side price) qty (reference.side side.opposite)
        rw [filled] at sweeps
        have unused : swept.orderMap id = none := by
          simp only [Apart, filled, used, false_or] at apart
          have ids := apart.resolve_left (by rw [← size_setSide]; omega)
          rw [refines₁.valid.index_none_iff]
          intro s order member
          apply ids
          rw [refines₁.same] at member
          by_cases here : s = side.opposite
          · rw [here, side_setSide] at member
            exact List.mem_append_left _ member
          · obtain rfl := eq_of_ne_opposite here
            rw [side_setSide_other _ _ here] at member
            exact List.mem_append_right _ member
        obtain ⟨book', result, valid', entered, kept, counts⟩ :=
          rest_enters refines₁.valid free unused used (Refines.clear refines₁.valid (sweeps.exhaustive used))
        refine ⟨book', layout₁.enter side price i, result, ?_, fun counted => counts (keeps counted)⟩
        rw [if_neg (by rw [not_or]; exact ⟨used, by omega⟩)]
        rw [refines₁.same] at entered
        exact refines₁.setSide valid' entered kept

theorem ordersAt_unlink_filter {orders orders' : OrderPool n} {index : Index n} {levels : Levels n}
    {side : Side} {price : Price} {limit limit' : Limit n} {i : Fin n}
    (rep : Represents orders index levels layout) (member : i ∈ layout.queue side price)
    (removed : Removed limit orders i limit' orders') (s : Side) (p : Price) :
    ordersAt (orders'.deallocate i) (layout.unlink side price i) s p =
      (ordersAt orders layout s p).filter (·.id ≠ (orders.pool i).id) := by
  -- the index tells the nodes of a queue apart
  have only : ∀ j ∈ layout.queue s p, (orders.pool j).id = (orders.pool i).id → j = i := by
    intro j inside sameId
    have first := (rep.index _ _).mpr ⟨rep.linked_of_mem member, rfl⟩
    have second := (rep.index _ _).mpr ⟨rep.linked_of_mem inside, sameId⟩
    exact Option.some.inj (second.symm.trans first)
  by_cases here : s = side ∧ p = price
  · obtain ⟨rfl, rfl⟩ := here
    rw [ordersAt_unlink removed, (rep.nodup s p).erase_eq_filter, ordersAt, List.filter_map]
    congr 1
    apply List.filter_congr
    intro j inside
    by_cases same : j = i
    · simp [same, Order.resting]
    · have apart : (orders.pool j).id ≠ (orders.pool i).id := fun ids => same (only j inside ids)
      simp [same, apart, Order.resting]
  · rw [ordersAt_unlink_other removed here, eq_comm, List.filter_eq_self]
    intro order inside
    obtain ⟨j, inQueue, rfl⟩ := List.mem_map.mp inside
    have other : j ≠ i := by
      rintro rfl
      exact rep.not_mem_other member here inQueue
    simp only [ne_eq, decide_not, Bool.not_eq_true', decide_eq_false_iff_not]
    exact fun ids => other (only j inQueue ids)

theorem cancelOrder_found {id : OrderID} {i : Fin n} {limit : Limit n} (found : book.orderMap id = some i)
    (level : (book.limits (book.pool.pool i).side).find? (book.pool.pool i).price = some limit) :
    book.cancelOrder id = putBack book (book.pool.pool i).side (book.pool.pool i).price
      (limit.remove book.pool i).1 ((limit.remove book.pool i).2.deallocate i)
      (Function.update book.orderMap id none) := by
  simp only [OrderBook.cancelOrder, found, level, putBack, setLimits_orderMap]

theorem side_cancelOrder (reference : Reference) (id : OrderID) (side : Side) :
    (reference.cancelOrder id).side side = (reference.side side).filter (·.id ≠ id) := by
  cases side <;> rfl

theorem Valid.level_of_linked (valid : Valid book layout) {side : Side} {price : Price} {i : Fin n}
    (member : i ∈ layout.queue side price) : ∃ limit, (book.limits side).find? price = some limit := by
  cases level : (book.limits side).find? price with
  | none =>
      rw [valid.rep.absent side price level] at member
      cases member
  | some limit => exact ⟨limit, rfl⟩

theorem cancelOrder_unknown (refines : Refines book layout reference) {id : OrderID}
    (unknown : book.orderMap id = none) : Refines (book.cancelOrder id) layout (reference.cancelOrder id) := by
  have unchanged : book.cancelOrder id = book := by simp [OrderBook.cancelOrder, unknown]
  refine ⟨by rw [unchanged]; exact refines.valid, fun side => ?_⟩
  rw [unchanged, side_cancelOrder, ← refines.same, eq_comm, List.filter_eq_self]
  intro order member
  simpa using refines.valid.index_none_iff.mp unknown side order member

theorem cancelOrder_known (refines : Refines book layout reference) {id : OrderID} {i : Fin n}
    (found : book.orderMap id = some i) :
    ∃ layout', Refines (book.cancelOrder id) layout' (reference.cancelOrder id) ∧
      (Counted book layout → Counted (book.cancelOrder id) layout') := by
  have valid := refines.valid
  obtain ⟨linked, rfl⟩ := (valid.rep.index _ _).mp found
  set side := (book.pool.pool i).side with sideEq
  set price := (book.pool.pool i).price with priceEq
  have member : i ∈ layout.queue side price := linked
  obtain ⟨limit, level⟩ := valid.level_of_linked member
  have removed := remove_removed limit book.pool i
  have rep := valid.rep.unlink level member removed
  have known : price ∈ (book.limits side).keys := (OrderedMap.find?_isSome_iff _).mp ⟨limit, level⟩
  have orders := ordersAt_unlink_filter valid.rep member removed
  have result := cancelOrder_found found level
  rw [← sideEq, ← priceEq] at result
  refine ⟨layout.unlink side price i, ⟨?_, fun s => ?_⟩, fun counted => ?_⟩
  · rw [result]
    refine putBack_valid valid known rep (fun s p other => ordersAt_unlink_other removed other) ?_
    intro s p order inside
    rw [orders] at inside
    exact valid.positive s p order (List.mem_filter.mp inside).1
  · have levels : ∀ s (prices : List Price),
        prices.flatMap (ordersAt ((limit.remove book.pool i).2.deallocate i) (layout.unlink side price i) s) =
          (prices.flatMap (ordersAt book.pool layout s)).filter (·.id ≠ (book.pool.pool i).id) := by
      intro s prices
      rw [List.filter_flatMap]
      congr 1
      funext p
      exact orders s p
    rw [result, side_cancelOrder, ← refines.same]
    by_cases here : s = side
    · rw [here, putBack_view known rep]
      exact levels side _
    · rw [view, putBack_limits_other here]
      exact levels s _
  · rw [result]
    have tallied := (counted side price limit level).unlink member
    exact putBack_counted (fun s p other => ordersAt_unlink_other removed other) counted tallied

theorem cancelOrder_refines (refines : Refines book layout reference) (id : OrderID) :
    ∃ layout', Refines (book.cancelOrder id) layout' (reference.cancelOrder id) ∧
      (Counted book layout → Counted (book.cancelOrder id) layout') := by
  cases found : book.orderMap id with
  | none =>
      have unchanged : book.cancelOrder id = book := by simp [OrderBook.cancelOrder, found]
      exact ⟨layout, cancelOrder_unknown refines found, fun counted => by rwa [unchanged]⟩
  | some i => exact cancelOrder_known refines found

end Calls

end KnowledgeAcquisition.Proof.HFT
