import KnowledgeAcquisition.Proof.HFT.PriceTime
import Mathlib.Data.Fintype.Card
import KnowledgeAcquisition.Proof.HFT.Representation

/-!
# The matching loops

The loop over the resting orders of a level and the loop over the levels, each against `Reference.fill`.
Both keep the value that `fill` would still compute, so that it can be read off when they leave.
-/

namespace KnowledgeAcquisition.Proof.HFT
open KnowledgeAcquisition.HFT OrderBook Library Links

variable {n : Nat}

def ordersAt (orders : OrderPool n) (layout : Layout n) (side : Side) (price : Price) : List Resting :=
  (layout.queue side price).map fun i => (orders.pool i).resting

def Tallied (orders : OrderPool n) (layout : Layout n) (side : Side) (price : Price) (level : Limit n) : Prop :=
  level.totalVolume = ((ordersAt orders layout side price).map Resting.qty).sum

theorem remove_volume (limit : Limit n) (orders : OrderPool n) (i : Fin n) :
    (limit.remove orders i).1.totalVolume = limit.totalVolume - (orders.pool i).qty := by
  unfold Limit.remove
  dsimp only
  split_ifs <;> rfl

theorem append_volume {limit limit' : Limit n} {orders orders' : OrderPool n} {i : Fin n}
    (appended : limit.append orders i = some (limit', orders')) :
    limit'.totalVolume = limit.totalVolume + (orders.pool i).qty := by
  cases head : limit.head with
  | none =>
      simp only [Limit.append, head, Option.some.injEq, Prod.mk.injEq] at appended
      obtain ⟨rfl, rfl⟩ := appended
      rfl
  | some first =>
      cases tail : limit.tail with
      | none => simp [Limit.append, head, tail] at appended
      | some last =>
          simp only [Limit.append, head, tail, Option.some.injEq, Prod.mk.injEq] at appended
          obtain ⟨rfl, rfl⟩ := appended
          -- the two writes before the quantity is read are to links
          have linked := modify_resting orders last (fun node => { node with next := some i }) (fun _ => rfl) i
          have both := modify_resting (orders.modify last fun node => { node with next := some i }) i
            (fun node => { node with prev := some last }) (fun _ => rfl) i
          have same := congrArg Resting.qty (both.trans linked)
          exact congrArg (limit.totalVolume + ·) same

section Orders

variable {orders orders' : OrderPool n} {index : Index n} {levels : Levels n} {layout : Layout n}
  {side s : Side} {price p : Price} {limit limit' : Limit n} {i : Fin n}

theorem Represents.priced (rep : Represents orders index levels layout) {order : Resting}
    (member : order ∈ ordersAt orders layout side price) : order.price = price ∧ order.side = side := by
  obtain ⟨j, inside, rfl⟩ := List.mem_map.mp member
  obtain ⟨sameSide, samePrice⟩ := rep.located side price j inside
  exact ⟨samePrice, sameSide⟩

theorem ordersAt_modify (f : Order n → Order n) (outside : i ∉ layout.queue s p) :
    ordersAt (orders.modify i f) layout s p = ordersAt orders layout s p := by
  apply List.map_congr_left
  intro j inside
  have other : j ≠ i := fun same => outside (same ▸ inside)
  simp [OrderPool.modify, other]

theorem ordersAt_unlink_other (removed : Removed limit orders i limit' orders')
    (other : ¬(s = side ∧ p = price)) :
    ordersAt (orders'.deallocate i) (layout.unlink side price i) s p = ordersAt orders layout s p := by
  simp only [ordersAt, Layout.unlink, setAt_other _ _ other]
  apply List.map_congr_left
  intro j _
  rw [deallocate_resting, removed.resting]

theorem ordersAt_unlink (removed : Removed limit orders i limit' orders') :
    ordersAt (orders'.deallocate i) (layout.unlink side price i) side price =
      ((layout.queue side price).erase i).map fun j => (orders.pool j).resting := by
  simp only [ordersAt, Layout.unlink, setAt_same]
  apply List.map_congr_left
  intro j _
  rw [deallocate_resting, removed.resting]

theorem Tallied.unlink (tallied : Tallied orders layout side price limit) (member : i ∈ layout.queue side price) :
    Tallied ((limit.remove orders i).2.deallocate i) (layout.unlink side price i) side price
      (limit.remove orders i).1 := by
  have split := List.sum_map_erase (fun j => (orders.pool j).qty) member
  rw [Tallied, ordersAt, List.map_map] at tallied
  rw [Tallied, ordersAt_unlink (remove_removed limit orders i), List.map_map, remove_volume, tallied]
  exact sub_eq_of_eq_add' split.symm

end Orders

/-- The state of the inner loop over the level `(side, best)`, seen through a layout: `others` rests
elsewhere, `rest` rests behind the level, and `target` is what `fill` still comes to. -/
structure MatchInv (levels : Levels n) (side : Side) (best : Price) (others : Side → Price → List Resting)
    (accepts : Price → Bool) (rest : List Resting) (target : Quantity × List Resting)
    (m : Matching n) (layout : Layout n) : Prop where
  rep : Represents m.pool m.orderMap (setAt levels side best (some m.level)) layout
  positive : ∀ s p, ∀ order ∈ ordersAt m.pool layout s p, order.qty ≠ 0
  others : ∀ s p, ¬(s = side ∧ p = best) → ordersAt m.pool layout s p = others s p
  resting : m.remaining ≠ 0 → m.resting = (layout.queue side best).head?
  target : Reference.fill accepts m.remaining (ordersAt m.pool layout side best ++ rest) = target

section MatchOrder

variable {levels : Levels n} {side : Side} {best : Price} {others : Side → Price → List Resting}
  {accepts : Price → Bool} {rest : List Resting} {target : Quantity × List Resting}
  {m : Matching n} {layout : Layout n} {i : Fin n} {q : List (Fin n)}

theorem sub_self_qty (a : Quantity) : a - a = 0 := by grind

theorem minQty_of_le {a b : Quantity} (le : b ≤ a) : minQty a b = b := by
  unfold minQty
  split
  · rfl
  · grind

theorem minQty_of_lt {a b : Quantity} (less : a < b) : minQty a b = a := by
  unfold minQty
  split
  · grind
  · rfl

theorem ordersAt_head (queue : layout.queue side best = i :: q) :
    ordersAt m.pool layout side best =
      (m.pool.pool i).resting :: q.map fun j => (m.pool.pool j).resting := by
  simp [ordersAt, queue]

theorem MatchInv.found (inv : MatchInv levels side best others accepts rest target m layout)
    (pending : m.remaining ≠ 0) (queue : layout.queue side best = i :: q) : m.resting = some i := by
  rw [inv.resting pending, queue]
  rfl

theorem MatchInv.written (inv : MatchInv levels side best others accepts rest target m layout)
    (i : Fin n) (matched : Quantity) :
    Represents (m.pool.modify i fun resting => { resting with qty := resting.qty - matched }) m.orderMap
      (setAt levels side best (some { m.level with totalVolume := m.level.totalVolume - matched })) layout := by
  have written := (inv.rep.setQty i (· - matched)).setVolume (setAt_same _ _ _ _) (m.level.totalVolume - matched)
  rw [setAt_setAt] at written
  exact written

theorem MatchInv.tail_modify (inv : MatchInv levels side best others accepts rest target m layout)
    (queue : layout.queue side best = i :: q) (f : Order n → Order n) :
    (q.map fun j => ((m.pool.modify i f).pool j).resting) = q.map fun j => (m.pool.pool j).resting := by
  have nodup := inv.rep.nodup side best
  rw [queue] at nodup
  apply List.map_congr_left
  intro j inside
  have other : j ≠ i := fun same => (List.nodup_cons.mp nodup).1 (same ▸ inside)
  simp [OrderPool.modify, other]

theorem MatchInv.positive_after (inv : MatchInv levels side best others accepts rest target m layout)
    {orders' : OrderPool n} {layout' : Layout n}
    (elsewhere : ∀ s p, ¬(s = side ∧ p = best) → ordersAt orders' layout' s p = others s p)
    (here : ∀ order ∈ ordersAt orders' layout' side best, order.qty ≠ 0) :
    ∀ s p, ∀ order ∈ ordersAt orders' layout' s p, order.qty ≠ 0 := by
  intro s p order inside
  by_cases at_ : s = side ∧ p = best
  · obtain ⟨rfl, rfl⟩ := at_
    exact here order inside
  · rw [elsewhere s p at_, ← inv.others s p at_] at inside
    exact inv.positive s p order inside

theorem MatchInv.accepts_head (inv : MatchInv levels side best others accepts rest target m layout)
    (accepted : accepts best = true) (queue : layout.queue side best = i :: q) :
    accepts (m.pool.pool i).resting.price = true := by
  have member : (m.pool.pool i).resting ∈ ordersAt m.pool layout side best := by
    rw [ordersAt_head queue]
    exact List.mem_cons_self
  rw [(inv.rep.priced member).1]
  exact accepted

theorem MatchInv.positive_tail (inv : MatchInv levels side best others accepts rest target m layout)
    (queue : layout.queue side best = i :: q) :
    ∀ order ∈ q.map fun j => (m.pool.pool j).resting, order.qty ≠ 0 := by
  intro order inside
  apply inv.positive side best order
  rw [ordersAt_head queue]
  exact List.mem_cons_of_mem _ inside

theorem MatchInv.tallied_written (inv : MatchInv levels side best others accepts rest target m layout)
    (queue : layout.queue side best = i :: q) (tallied : Tallied m.pool layout side best m.level)
    (matched : Quantity) :
    Tallied (m.pool.modify i fun resting => { resting with qty := resting.qty - matched }) layout side best
      { m.level with totalVolume := m.level.totalVolume - matched } := by
  have first : ((m.pool.modify i fun resting => { resting with qty := resting.qty - matched }).pool i).resting.qty =
      (m.pool.pool i).resting.qty - matched := by
    simp [OrderPool.modify, Order.resting]
  rw [Tallied, ordersAt_head queue, List.map_cons, List.sum_cons] at tallied
  rw [Tallied, ordersAt, queue, List.map_cons, inv.tail_modify queue, List.map_cons, List.sum_cons, first]
  show m.level.totalVolume - matched = _
  rw [tallied, add_sub_right_comm]

theorem matchOrder_filled (inv : MatchInv levels side best others accepts rest target m layout)
    (accepted : accepts best = true) (pending : m.remaining ≠ 0)
    (queue : layout.queue side best = i :: q) (whole : (m.pool.pool i).qty ≤ m.remaining) :
    ∃ m', matchOrder m = some (.inl m') ∧
      MatchInv levels side best others accepts rest target m' (layout.unlink side best i) ∧
      (Tallied m.pool layout side best m.level → Tallied m'.pool (layout.unlink side best i) side best m'.level) := by
  have found := inv.found pending queue
  have member : i ∈ layout.queue side best := queue ▸ List.mem_cons_self
  have taken := minQty_of_le whole
  set matched := (m.pool.pool i).qty with matchedEq
  let pool := m.pool.modify i fun resting => { resting with qty := resting.qty - matched }
  let level := { m.level with totalVolume := m.level.totalVolume - matched }
  have emptied : (pool.pool i).qty = 0 := by
    simp [pool, OrderPool.modify, ← matchedEq]
  have removed := remove_removed level pool i
  have unlinked := (inv.written i matched).unlink (setAt_same _ _ _ _) member removed
  rw [setAt_setAt] at unlinked
  have sameId : ((level.remove pool i).2.pool i).id = (pool.pool i).id :=
    congrArg Resting.id (removed.resting i)
  have others' : ∀ s p, ¬(s = side ∧ p = best) →
      ordersAt ((level.remove pool i).2.deallocate i) (layout.unlink side best i) s p = others s p := by
    intro s p other
    rw [ordersAt_unlink_other removed other, ordersAt_modify _ (inv.rep.not_mem_other member other)]
    exact inv.others s p other
  have here : ordersAt ((level.remove pool i).2.deallocate i) (layout.unlink side best i) side best =
      q.map fun j => (m.pool.pool j).resting := by
    rw [ordersAt_unlink removed, queue, List.erase_cons_head]
    exact inv.tail_modify queue _
  let after : Matching n :=
    { pool := (level.remove pool i).2.deallocate i
      orderMap := Function.update m.orderMap (pool.pool i).id none
      level := (level.remove pool i).1
      resting := (m.pool.pool i).next
      remaining := m.remaining - matched }
  refine ⟨after, ?_, ⟨unlinked, inv.positive_after others' ?_, others', ?_, ?_⟩, ?_⟩
  · simp only [matchOrder, found, if_neg pending, ← matchedEq, taken]
    rw [if_pos emptied, sameId]
  · intro order inside
    rw [here] at inside
    exact inv.positive_tail queue order inside
  · intro _
    obtain ⟨-, linked⟩ := inv.rep.present side best m.level (setAt_same _ _ _ _)
    rw [queue] at linked
    have forward : (m.pool.pool i).next = q.head?.or none := linked.linked.2.1
    simp only [after, Layout.unlink, setAt_same, queue, List.erase_cons_head]
    rw [forward, Option.or_none]
  · have before := inv.target
    rw [ordersAt_head queue, List.cons_append, fill_whole pending (inv.accepts_head accepted queue) whole] at before
    rw [here]
    exact before
  · intro tallied
    exact (inv.tallied_written queue tallied matched).unlink member

theorem matchOrder_partial (inv : MatchInv levels side best others accepts rest target m layout)
    (accepted : accepts best = true) (pending : m.remaining ≠ 0)
    (queue : layout.queue side best = i :: q) (part : m.remaining < (m.pool.pool i).qty) :
    ∃ m', matchOrder m = some (.inl m') ∧ m'.remaining = 0 ∧
      MatchInv levels side best others accepts rest target m' layout ∧
      (Tallied m.pool layout side best m.level → Tallied m'.pool layout side best m'.level) := by
  have found := inv.found pending queue
  have member : i ∈ layout.queue side best := queue ▸ List.mem_cons_self
  have taken := minQty_of_lt part
  let pool := m.pool.modify i fun resting => { resting with qty := resting.qty - m.remaining }
  let level := { m.level with totalVolume := m.level.totalVolume - m.remaining }
  have left : (pool.pool i).resting =
      { (m.pool.pool i).resting with qty := (m.pool.pool i).qty - m.remaining } := by
    simp [pool, OrderPool.modify, Order.resting]
  have nonzero : (m.pool.pool i).qty - m.remaining ≠ 0 := by grind
  have here : ordersAt pool layout side best =
      { (m.pool.pool i).resting with qty := (m.pool.pool i).qty - m.remaining } ::
        q.map fun j => (m.pool.pool j).resting := by
    rw [ordersAt, queue, List.map_cons, left]
    congr 1
    exact inv.tail_modify queue _
  have others' : ∀ s p, ¬(s = side ∧ p = best) → ordersAt pool layout s p = others s p := by
    intro s p other
    rw [ordersAt_modify _ (inv.rep.not_mem_other member other)]
    exact inv.others s p other
  refine ⟨{ m with pool, level, resting := (m.pool.pool i).next, remaining := 0 }, ?_, rfl,
    ⟨inv.written i m.remaining, inv.positive_after others' ?_, others', fun left => absurd rfl left, ?_⟩, ?_⟩
  · have quantity : (pool.pool i).qty ≠ 0 := by
      rw [show (pool.pool i).qty = (pool.pool i).resting.qty from rfl, left]
      exact nonzero
    simp only [matchOrder, found, if_neg pending, taken]
    rw [if_neg quantity, sub_self_qty]
  · intro order inside
    rw [here] at inside
    cases List.mem_cons.mp inside with
    | inl first =>
        rw [first]
        exact nonzero
    | inr later => exact inv.positive_tail queue order later
  · have before := inv.target
    rw [ordersAt_head queue, List.cons_append, fill_part pending (inv.accepts_head accepted queue) part] at before
    rw [here, fill_zero]
    exact before
  · intro tallied
    exact inv.tallied_written queue tallied m.remaining

theorem matchOrder_leaves (done : m.remaining = 0 ∨ m.resting = none) : matchOrder m = some (.inr m) := by
  cases found : m.resting with
  | none => simp [matchOrder, found]
  | some order =>
      have filled := done.resolve_right (by simp [found])
      simp [matchOrder, found, filled]

theorem matchLevel_total (accepted : accepts best = true) (fuel : Nat) (enough : n < fuel)
    (inv : MatchInv levels side best others accepts rest target m layout) :
    ∃ m', Loop.run matchOrder fuel m = some m' ∧ ∃ layout',
      MatchInv levels side best others accepts rest target m' layout' ∧
      (m'.remaining = 0 ∨ layout'.queue side best = []) ∧
      (Tallied m.pool layout side best m.level → Tallied m'.pool layout' side best m'.level) := by
  set start := Tallied m.pool layout side best m.level
  let I : Nat → Matching n → Prop := fun k m => ∃ layout,
    MatchInv levels side best others accepts rest target m layout ∧
    (k = if m.remaining = 0 then 0 else (layout.queue side best).length) ∧
    (start → Tallied m.pool layout side best m.level)
  have bound : (if m.remaining = 0 then 0 else (layout.queue side best).length) < fuel := by
    have short := (inv.rep.nodup side best).length_le_card
    rw [Fintype.card_fin] at short
    split <;> omega
  refine Loop.run_total (I := I) ?_ fuel _ m ⟨layout, inv, rfl, id⟩ bound
  rintro k m ⟨layout, inv, rfl, tallied⟩
  by_cases filled : m.remaining = 0
  · exact Or.inr ⟨m, matchOrder_leaves (Or.inl filled), layout, inv, Or.inl filled, tallied⟩
  · rw [if_neg filled]
    cases queue : layout.queue side best with
    | nil =>
        have none : m.resting = none := by rw [inv.resting filled, queue]; rfl
        exact Or.inr ⟨m, matchOrder_leaves (Or.inr none), layout, inv, Or.inr queue, tallied⟩
    | cons i q =>
        by_cases whole : (m.pool.pool i).qty ≤ m.remaining
        · obtain ⟨m', step, inv', keeps⟩ := matchOrder_filled inv accepted filled queue whole
          refine Or.inl ⟨m', _, step, ⟨_, inv', rfl, fun begun => keeps (tallied begun)⟩, ?_⟩
          simp only [Layout.unlink, setAt_same, queue, List.erase_cons_head, List.length_cons]
          split <;> omega
        · obtain ⟨m', step, done, inv', keeps⟩ := matchOrder_partial inv accepted filled queue (by grind)
          exact Or.inl ⟨m', _, step, ⟨_, inv', rfl, fun begun => keeps (tallied begun)⟩, by simp [done]⟩

end MatchOrder

/-! ## The book as a whole -/

def levelsOf (book : OrderBook n) : Levels n := fun side price => (book.limits side).find? price

structure Valid (book : OrderBook n) (layout : Layout n) : Prop where
  rep : Represents book.pool book.orderMap (levelsOf book) layout
  nonempty : ∀ side price, price ∈ (book.limits side).keys → layout.queue side price ≠ []
  positive : ∀ side price, ∀ order ∈ ordersAt book.pool layout side price, order.qty ≠ 0
  uncrossed : ∀ bid ∈ (book.limits .buy).keys, ∀ ask ∈ (book.limits .sell).keys, bid < ask

def Counted (book : OrderBook n) (layout : Layout n) : Prop :=
  ∀ side price limit, levelsOf book side price = some limit → Tallied book.pool layout side price limit

def view (book : OrderBook n) (layout : Layout n) (side : Side) : List Resting :=
  (book.limits side).keys.flatMap (ordersAt book.pool layout side)

def nodesOf (book : OrderBook n) (layout : Layout n) (side : Side) : List (Fin n) :=
  (book.limits side).keys.flatMap (layout.queue side)

section Count

variable {book : OrderBook n} {layout : Layout n} {side : Side} {i : Fin n}

theorem view_eq_map : view book layout side =
    (nodesOf book layout side).map fun i => (book.pool.pool i).resting := by
  rw [view, nodesOf, List.map_flatMap]
  rfl

theorem Valid.mem_nodes (valid : Valid book layout) :
    i ∈ nodesOf book layout side ↔ layout.Linked book.pool i ∧ (book.pool.pool i).side = side := by
  rw [nodesOf, List.mem_flatMap]
  constructor
  · rintro ⟨price, -, inside⟩
    exact ⟨valid.rep.linked_of_mem inside, (valid.rep.located side price i inside).1⟩
  · rintro ⟨linked, rfl⟩
    refine ⟨(book.pool.pool i).price, ?_, linked⟩
    rw [← OrderedMap.find?_isSome_iff]
    cases found : (book.limits (book.pool.pool i).side).find? (book.pool.pool i).price with
    | none =>
        have none := valid.rep.absent _ _ found
        rw [Layout.Linked, none] at linked
        cases linked
    | some limit => exact ⟨limit, rfl⟩

theorem Valid.nodes_nodup (valid : Valid book layout) : (nodesOf book layout side).Nodup := by
  apply List.nodup_flatMap.mpr
  refine ⟨fun price _ => valid.rep.nodup side price, ?_⟩
  refine (book.limits side).keys_nodup.imp ?_
  intro a b other i inA inB
  have first := valid.rep.located side a i inA
  have second := valid.rep.located side b i inB
  exact other (first.2.symm.trans second.2)

theorem Valid.count (valid : Valid book layout) :
    (view book layout .buy).length + (view book layout .sell).length + layout.free.length = n := by
  have nodup : (nodesOf book layout .buy ++ nodesOf book layout .sell ++ layout.free).Nodup := by
    refine List.nodup_append.mpr ⟨List.nodup_append.mpr
      ⟨valid.nodes_nodup, valid.nodes_nodup, ?_⟩, valid.rep.freeNodup, ?_⟩
    · rintro a buy b sell rfl
      have first := (valid.mem_nodes.mp buy).2
      rw [(valid.mem_nodes.mp sell).2] at first
      cases first
    · rintro a queued b free rfl
      have linked : layout.Linked book.pool a := by
        rcases List.mem_append.mp queued with inside | inside
        · exact (valid.mem_nodes.mp inside).1
        · exact (valid.mem_nodes.mp inside).1
      exact (valid.rep.cover a).mp free linked
  have all : ∀ i, i ∈ nodesOf book layout .buy ++ nodesOf book layout .sell ++ layout.free := by
    intro i
    simp only [List.mem_append, valid.mem_nodes, valid.rep.cover]
    cases (book.pool.pool i).side <;> by_cases linked : layout.Linked book.pool i <;> simp [linked]
  have size : (nodesOf book layout .buy ++ nodesOf book layout .sell ++ layout.free).length = n := by
    have card := List.toFinset_card_of_nodup nodup
    have univ : (nodesOf book layout .buy ++ nodesOf book layout .sell ++ layout.free).toFinset =
        Finset.univ := by
      ext i
      simp only [List.mem_toFinset, all i, Finset.mem_univ]
    rw [univ, Finset.card_univ, Fintype.card_fin] at card
    exact card.symm
  rw [view_eq_map, view_eq_map, List.length_map, List.length_map]
  simpa only [List.length_append] using size

theorem Valid.view_length_le (valid : Valid book layout) : (view book layout side).length ≤ n := by
  have count := valid.count
  cases side <;> omega

end Count

@[simp] theorem limits_setLimits (book : OrderBook n) (side : Side) (limits : LimitMap n side) :
    (book.setLimits side limits).limits side = limits := by
  cases side <;> rfl

theorem limits_setLimits_other (book : OrderBook n) {side s : Side} (limits : LimitMap n side)
    (other : s ≠ side) : (book.setLimits side limits).limits s = book.limits s := by
  cases side <;> cases s
  all_goals first | rfl | exact absurd rfl other

@[simp] theorem limits_pool (book : OrderBook n) (pool : OrderPool n) (orderMap : Index n) (side : Side) :
    ({ book with pool, orderMap } : OrderBook n).limits side = book.limits side := by
  cases side <;> rfl

theorem levelsOf_putLevel (book : OrderBook n) (side : Side) (price : Price) (level : Limit n) :
    levelsOf (book.setLimits side (putLevel (book.limits side) price level)) =
      setAt (levelsOf book) side price (if level.head = none then none else some level) := by
  funext s p
  by_cases own : s = side
  · subst own
    simp only [levelsOf, limits_setLimits, putLevel, setAt, true_and]
    split_ifs with vacant here here
    · rw [OrderedMap.find?_erase, if_pos here]
    · rw [OrderedMap.find?_erase, if_neg here]
    · rw [OrderedMap.find?_assign, if_pos here]
    · rw [OrderedMap.find?_assign, if_neg here]
  · have away : ¬(s = side ∧ p = price) := fun both => own both.1
    simp only [levelsOf, limits_setLimits_other book _ own, setAt, if_neg away]

theorem flatMap_ordersAt_congr {orders orders' : OrderPool n} {layout layout' : Layout n} {s : Side}
    {prices : List Price}
    (same : ∀ p ∈ prices, ordersAt orders' layout' s p = ordersAt orders layout s p) :
    prices.flatMap (ordersAt orders' layout' s) = prices.flatMap (ordersAt orders layout s) := by
  rw [List.flatMap_def, List.flatMap_def, List.map_congr_left same]

def putBack (book : OrderBook n) (side : Side) (price : Price) (level : Limit n) (pool : OrderPool n)
    (orderMap : Index n) : OrderBook n :=
  { book.setLimits side (putLevel (book.limits side) price level) with pool, orderMap }

section PutBack

variable {book : OrderBook n} {layout layout' : Layout n} {side : Side} {price : Price} {level : Limit n}
  {pool : OrderPool n} {index : Index n}
  (valid : Valid book layout) (known : price ∈ (book.limits side).keys)
  (rep : Represents pool index (setAt (levelsOf book) side price (some level)) layout')
  (others : ∀ s p, ¬(s = side ∧ p = price) → ordersAt pool layout' s p = ordersAt book.pool layout s p)

theorem levelsOf_putBack : levelsOf (putBack book side price level pool index) =
    setAt (levelsOf book) side price (if level.head = none then none else some level) := by
  rw [← levelsOf_putLevel]
  funext s p
  simp only [levelsOf, putBack, limits_pool]

include others in
theorem putBack_counted (counted : Counted book layout) (tallied : Tallied pool layout' side price level) :
    Counted (putBack book side price level pool index) layout' := by
  intro s p limit found
  rw [levelsOf_putBack] at found
  by_cases here : s = side ∧ p = price
  · obtain ⟨rfl, rfl⟩ := here
    rw [setAt_same] at found
    split_ifs at found with vacant
    obtain rfl := Option.some.inj found
    exact tallied
  · rw [setAt_other _ _ here] at found
    have before := counted s p limit found
    rw [Tallied, ← others s p here] at before
    exact before

theorem putBack_limits_other {s : Side} (other : s ≠ side) :
    (putBack book side price level pool index).limits s = book.limits s := by
  simp only [putBack, limits_pool]
  exact limits_setLimits_other book _ other

include others in
theorem putBack_view_other {s : Side} (other : s ≠ side) :
    view (putBack book side price level pool index) layout' s = view book layout s := by
  rw [view, view, putBack_limits_other other]
  exact flatMap_ordersAt_congr fun p _ => others s p fun both => other both.1

include known

theorem putBack_keys : ((putBack book side price level pool index).limits side).keys =
    if level.head = none then (book.limits side).keys.filter (· ≠ price) else (book.limits side).keys := by
  simp only [putBack, limits_pool, limits_setLimits, putLevel]
  split_ifs with vacant
  · exact OrderedMap.keys_erase _ _
  · rw [OrderedMap.keys_assign, OrderedMap.insertKey_mem (book.limits side).keys_sorted known]

include rep

theorem putBack_view : view (putBack book side price level pool index) layout' side =
    (book.limits side).keys.flatMap (ordersAt pool layout' side) := by
  rw [view, putBack_keys known]
  split_ifs with vacant
  · have queue := (rep.present _ _ _ (setAt_same _ _ _ _)).2
    have none : ordersAt pool layout' side price = [] := by
      rw [ordersAt, List.head?_eq_none_iff.mp (queue.head_eq.symm.trans vacant), List.map_nil]
    exact flatMap_filter_vacant none _
  · rfl

include valid others

theorem putBack_valid (positive : ∀ s p, ∀ order ∈ ordersAt pool layout' s p, order.qty ≠ 0) :
    Valid (putBack book side price level pool index) layout' := by
  have smaller : ∀ s p, p ∈ ((putBack book side price level pool index).limits s).keys →
      p ∈ (book.limits s).keys := by
    intro s p member
    by_cases same : s = side
    · subst same
      rw [putBack_keys known] at member
      split_ifs at member with vacant
      · exact (List.mem_filter.mp member).1
      · exact member
    · rwa [putBack_limits_other same] at member
  refine ⟨?_, ?_, positive, ?_⟩
  · rw [levelsOf_putBack]
    split_ifs with vacant
    · have evicted := rep.evict (setAt_same _ _ _ _) vacant
      rwa [setAt_setAt] at evicted
    · exact rep
  · intro s p member
    by_cases here : s = side ∧ p = price
    · obtain ⟨rfl, rfl⟩ := here
      rw [putBack_keys known] at member
      split_ifs at member with vacant
      · simp at member
      · have queue := (rep.present _ _ _ (setAt_same _ _ _ _)).2
        intro none
        exact vacant (queue.head_eq.trans (by rw [none]; rfl))
    · have before := valid.nonempty s p (smaller s p member)
      intro none
      have same := others s p here
      rw [ordersAt, none, List.map_nil] at same
      exact before (List.map_eq_nil_iff.mp same.symm)
  · intro bid buy ask sell
    exact valid.uncrossed bid (smaller .buy bid buy) ask (smaller .sell ask sell)

end PutBack

/-! ## The loop over the levels -/

theorem opposite_ne (side : Side) : side ≠ side.opposite := by
  cases side <;> nofun

theorem eq_opposite {s side : Side} (other : s ≠ side) : s = side.opposite := by
  cases s <;> cases side <;> first | rfl | exact absurd rfl other

theorem eq_of_ne_opposite {s side : Side} (other : s ≠ side.opposite) : s = side := by
  cases s <;> cases side <;> first | rfl | exact absurd rfl other

/-- The state of the outer loop: `own` rests on the side of the incoming order, which the loop leaves
alone, and `target` is what `fill` still comes to on the opposite side. -/
structure SweepInv (side : Side) (price : Price) (own : List Resting) (target : Quantity × List Resting)
    (remaining : Quantity) (book : OrderBook n) (layout : Layout n) : Prop where
  valid : Valid book layout
  own : view book layout side = own
  target : Reference.fill (crosses side price) remaining (view book layout side.opposite) = target

theorem first?_keys {K V : Type} {lt : K → K → Prop} {m : OrderedMap K V lt} {k : K} {v : V}
    (first : m.first? = some (k, v)) : ∃ es, m.entries = (k, v) :: es ∧ m.keys = k :: es.map Prod.fst := by
  cases entries : m.entries with
  | nil => simp [OrderedMap.first?, entries] at first
  | cons e es =>
      obtain rfl : e = (k, v) := by simpa [OrderedMap.first?, entries] using first
      exact ⟨es, rfl, by simp [OrderedMap.keys, entries]⟩

section Sweep

variable {side : Side} {price best : Price} {own : List Resting} {target : Quantity × List Resting}
  {remaining : Quantity} {book : OrderBook n} {layout layout' : Layout n} {level : Limit n} {m : Matching n}

theorem SweepInv.enterLevel (inv : SweepInv side price own target remaining book layout)
    (first : (book.limits side.opposite).first? = some (best, level)) :
    ∃ later, (book.limits side.opposite).keys = best :: later ∧ best ∉ later ∧
      levelsOf book side.opposite best = some level ∧
      MatchInv (levelsOf book) side.opposite best (ordersAt book.pool layout) (crosses side price)
        (later.flatMap (ordersAt book.pool layout side.opposite)) target
        { pool := book.pool, orderMap := book.orderMap, level, resting := level.head, remaining } layout := by
  obtain ⟨es, entries, keys⟩ := first?_keys first
  have found : levelsOf book side.opposite best = some level := by
    rw [levelsOf, OrderedMap.find?_eq_some_iff, entries]
    exact List.mem_cons_self
  have nodup := (book.limits side.opposite).keys_nodup
  rw [keys] at nodup
  refine ⟨_, keys, (List.nodup_cons.mp nodup).1, found, ?_, inv.valid.positive, fun _ _ _ => rfl, ?_, ?_⟩
  · rw [setAt_eq_self found]
    exact inv.valid.rep
  · intro _
    exact (inv.valid.rep.present _ _ level found).2.head_eq
  · rw [← inv.target, view, keys, List.flatMap_cons]

section AfterLevel

variable {later : List Price}
  (keys : (book.limits side.opposite).keys = best :: later) (notLater : best ∉ later)
  (inner : MatchInv (levelsOf book) side.opposite best (ordersAt book.pool layout) (crosses side price)
    (later.flatMap (ordersAt book.pool layout side.opposite)) target m layout')

include keys notLater inner

theorem afterLevel_view :
    view (putBack book side.opposite best m.level m.pool m.orderMap) layout' side.opposite =
      ordersAt m.pool layout' side.opposite best ++
        later.flatMap (ordersAt book.pool layout side.opposite) := by
  rw [putBack_view (keys ▸ List.mem_cons_self) inner.rep, keys, List.flatMap_cons]
  congr 1
  exact flatMap_ordersAt_congr fun p member => inner.others _ p fun both => notLater (both.2 ▸ member)

theorem SweepInv.afterLevel (inv : SweepInv side price own target remaining book layout) :
    SweepInv side price own target m.remaining
      (putBack book side.opposite best m.level m.pool m.orderMap) layout' := by
  have known : best ∈ (book.limits side.opposite).keys := keys ▸ List.mem_cons_self
  refine ⟨putBack_valid inv.valid known inner.rep inner.others inner.positive, ?_, ?_⟩
  · rw [putBack_view_other inner.others (opposite_ne side)]
    exact inv.own
  · rw [afterLevel_view keys notLater inner]
    exact inner.target

end AfterLevel

theorem sweepLevel_crossing (fuel : Nat) (pending : remaining ≠ 0)
    (first : (book.limits side.opposite).first? = some (best, level))
    (crossing : crosses side price best = true)
    (inner : Loop.run matchOrder fuel
      { pool := book.pool, orderMap := book.orderMap, level, resting := level.head, remaining } = some m) :
    sweepLevel fuel price side (remaining, book) =
      some (.inl (m.remaining, putBack book side.opposite best m.level m.pool m.orderMap)) := by
  simp only [sweepLevel, if_neg pending, first, crossing, inner, Bool.not_true, Bool.false_eq_true, if_false]
  rfl

/-! The outer loop stops where `fill` does: nothing is left to fill, no level is left, or the best one
is refused. -/

theorem SweepInv.filled (inv : SweepInv side price own target 0 book layout) :
    (0, view book layout side.opposite) = target := by
  rw [← inv.target, fill_zero]

theorem SweepInv.noLevel (inv : SweepInv side price own target remaining book layout)
    (none : (book.limits side.opposite).first? = none) :
    (remaining, view book layout side.opposite) = target := by
  have empty : (book.limits side.opposite).keys = [] := by
    rw [OrderedMap.keys, List.head?_eq_none_iff.mp none]
    rfl
  rw [← inv.target, view, empty]
  rfl

theorem SweepInv.refused (inv : SweepInv side price own target remaining book layout) {later : List Price}
    (keys : (book.limits side.opposite).keys = best :: later) (refused : crosses side price best = false) :
    (remaining, view book layout side.opposite) = target := by
  obtain ⟨i, q, queue⟩ :=
    List.exists_cons_of_ne_nil (inv.valid.nonempty side.opposite best (keys ▸ List.mem_cons_self))
  have atBest := (inv.valid.rep.located _ _ i (queue ▸ List.mem_cons_self)).2
  have first : crosses side price (book.pool.pool i).resting.price = false := by
    show crosses side price (book.pool.pool i).price = false
    rw [atBest]
    exact refused
  rw [← inv.target, view, keys, List.flatMap_cons, ordersAt, queue, List.map_cons, List.cons_append]
  simp [Reference.fill, first]

def ahead (side : Side) (remaining : Quantity) (book : OrderBook n) (layout : Layout n) : Nat :=
  if remaining = 0 then 0 else (view book layout side.opposite).length

theorem ahead_le (valid : Valid book layout) : ahead side remaining book layout ≤ n := by
  have short : (view book layout side.opposite).length ≤ n := valid.view_length_le
  unfold ahead
  split
  · exact Nat.zero_le n
  · exact short

theorem ahead_afterLevel (valid : Valid book layout) {later : List Price}
    (keys : (book.limits side.opposite).keys = best :: later) (notLater : best ∉ later) (pending : remaining ≠ 0)
    (inner : MatchInv (levelsOf book) side.opposite best (ordersAt book.pool layout) (crosses side price)
      (later.flatMap (ordersAt book.pool layout side.opposite)) target m layout')
    (ended : m.remaining = 0 ∨ layout'.queue side.opposite best = []) :
    ahead side m.remaining (putBack book side.opposite best m.level m.pool m.orderMap) layout' <
      ahead side remaining book layout := by
  have occupied : 0 < (ordersAt book.pool layout side.opposite best).length := by
    rw [ordersAt, List.length_map]
    exact List.length_pos_of_ne_nil (valid.nonempty side.opposite best (keys ▸ List.mem_cons_self))
  have whole : (view book layout side.opposite).length =
      (ordersAt book.pool layout side.opposite best).length +
        (later.flatMap (ordersAt book.pool layout side.opposite)).length := by
    rw [view, keys, List.flatMap_cons, List.length_append]
  rw [ahead, ahead, if_neg pending, whole, afterLevel_view keys notLater inner]
  split_ifs with used
  · omega
  · have gone : ordersAt m.pool layout' side.opposite best = [] := by
      rw [ordersAt, ended.resolve_left used, List.map_nil]
    rw [gone, List.nil_append]
    omega

theorem sweep_total (fuel : Nat) (enough : n < fuel)
    (inv : SweepInv side price own target remaining book layout) :
    ∃ r, Loop.run (sweepLevel fuel price side) fuel (remaining, book) = some r ∧ ∃ layout',
      Valid r.2 layout' ∧ view r.2 layout' side = own ∧
      (r.1, view r.2 layout' side.opposite) = target ∧ (Counted book layout → Counted r.2 layout') := by
  set start := Counted book layout
  let I : Nat → Quantity × OrderBook n → Prop := fun k state => ∃ layout,
    SweepInv side price own target state.1 state.2 layout ∧ k = ahead side state.1 state.2 layout ∧
    (start → Counted state.2 layout)
  refine Loop.run_total (I := I) ?_ fuel _ (remaining, book) ⟨layout, inv, rfl, id⟩
    (Nat.lt_of_le_of_lt (ahead_le inv.valid) enough)
  rintro k ⟨remaining, book⟩ ⟨layout, inv, rfl, counted⟩
  change SweepInv side price own target remaining book layout at inv
  by_cases filled : remaining = 0
  · subst filled
    exact Or.inr ⟨(0, book), by simp [sweepLevel], layout, inv.valid, inv.own, inv.filled,
      counted⟩
  · cases first : (book.limits side.opposite).first? with
    | none =>
        exact Or.inr ⟨(remaining, book), by simp [sweepLevel, filled, first], layout, inv.valid, inv.own,
          inv.noLevel first, counted⟩
    | some entry =>
        obtain ⟨best, level⟩ := entry
        obtain ⟨later, keys, notLater, found, inner⟩ := inv.enterLevel first
        by_cases crossing : crosses side price best = true
        · obtain ⟨m, finished, layout', after, ended, keeps⟩ := matchLevel_total crossing fuel enough inner
          refine Or.inl ⟨_, _, sweepLevel_crossing fuel filled first crossing finished,
            ⟨layout', inv.afterLevel keys notLater after, rfl, fun begun => ?_⟩,
            ahead_afterLevel inv.valid keys notLater filled after ended⟩
          exact putBack_counted after.others (counted begun) (keeps (counted begun _ _ level found))
        · exact Or.inr ⟨(remaining, book), by simp [sweepLevel, filled, first, crossing], layout, inv.valid,
            inv.own, inv.refused keys (by simpa using crossing), counted⟩

end Sweep

end KnowledgeAcquisition.Proof.HFT
