import KnowledgeAcquisition.Proof.HFT.Refinement

/-!
# Runs of the order book

Every run of `limit_order` and `cancel_order` calls from the fresh book in which no call reuses the
identifier of a resting order, for every pool capacity: it returns, shows the resting orders of the
reference after each call, and keeps the representation invariant.
-/

namespace KnowledgeAcquisition.Proof.HFT
open KnowledgeAcquisition.HFT OrderBook Library Links

variable {n : Nat}

/-- The identifier of the call is not the one of a resting order. Cancelling is always allowed. -/
def Fresh (book : OrderBook n) : Call → Prop
  | .limitOrder id _ _ _ => ∀ order ∈ book.resting .buy ++ book.resting .sell, order.id ≠ id
  | .cancelOrder _ => True

instance (book : OrderBook n) : (call : Call) → Decidable (Fresh book call)
  | .limitOrder id _ _ _ =>
      inferInstanceAs (Decidable (∀ order ∈ book.resting .buy ++ book.resting .sell, order.id ≠ id))
  | .cancelOrder _ => inferInstanceAs (Decidable True)

def shown (book : OrderBook n) : Reference := ⟨book.resting .buy, book.resting .sell⟩

def Unclaimed (book : OrderBook n) : Call → Prop
  | .limitOrder id price qty side => Apart n (shown book) id price qty side
  | .cancelOrder _ => True

instance (book : OrderBook n) : (call : Call) → Decidable (Unclaimed book call)
  | .limitOrder id price qty side => inferInstanceAs (Decidable (Apart n (shown book) id price qty side))
  | .cancelOrder _ => inferInstanceAs (Decidable True)

abbrev NoReuse (fuel : Nat) (book : OrderBook n) (calls : List Call) : Prop :=
  Trace.Meets (exec fuel) Fresh book calls

theorem new_chain (n k : Nat) (start : Nat) (length : start + k = n) :
    Chain (nexts (OrderPool.new n)) (if h : start < n then some ⟨start, h⟩ else none)
      ((List.finRange n).drop start) := by
  induction k generalizing start with
  | zero =>
      have outside : ¬start < n := by omega
      have none : (List.finRange n).drop start = [] := by
        apply List.drop_eq_nil_of_le
        simp only [List.length_finRange]
        omega
      rw [dif_neg outside, none]
      rfl
  | succ k ih =>
      have inside : start < n := by omega
      have first : (List.finRange n).drop start = ⟨start, inside⟩ :: (List.finRange n).drop (start + 1) := by
        rw [List.drop_eq_getElem_cons (by simpa using inside)]
        simp
      rw [dif_pos inside, first]
      exact ⟨rfl, ih (start + 1) (by omega)⟩

theorem new_valid (n : Nat) : Valid (OrderBook.new n) ⟨fun _ _ => [], List.finRange n⟩ := by
  have noLevel : ∀ side price, levelsOf (OrderBook.new n) side price = none := by
    intro side price
    cases side <;> rfl
  have noKey : ∀ side, ((OrderBook.new n).limits side).keys = [] := by
    intro side
    cases side <;> rfl
  refine ⟨⟨nofun, ?_, fun _ _ _ => rfl, new_chain n n 0 (by omega), List.nodup_finRange n, ?_, ?_⟩, ?_, nofun, ?_⟩
  · intro side price limit found
    rw [noLevel] at found
    cases found
  · intro i
    simp [Layout.Linked]
  · intro id i
    simp [Layout.Linked, OrderBook.new]
  · intro side price member
    rw [noKey] at member
    cases member
  · intro bid member
    rw [noKey] at member
    cases member

theorem new_counted (n : Nat) : Counted (OrderBook.new n) ⟨fun _ _ => [], List.finRange n⟩ := by
  intro side price limit found
  cases side <;> cases found

theorem new_refines (n : Nat) : Refines (OrderBook.new n) ⟨fun _ _ => [], List.finRange n⟩ Reference.new := by
  refine ⟨new_valid n, fun side => ?_⟩
  cases side <;> rfl

section Steps

variable {book : OrderBook n} {layout : Layout n} {reference : Reference} {fuel : Nat}

theorem Fresh.unclaimed {call : Call} (fresh : Fresh book call) : Unclaimed book call := by
  cases call with
  | cancelOrder id => trivial
  | limitOrder id price qty side =>
      have mem : ∀ s, ∀ order ∈ (shown book).side s, order.id ≠ id := by
        intro s order member
        apply fresh
        cases s with
        | buy => exact List.mem_append_left _ member
        | sell => exact List.mem_append_right _ member
      refine Or.inr (Or.inr ?_)
      intro order member
      rcases List.mem_append.mp member with left | own
      · obtain ⟨old, inside, sameId⟩ := fill_ids left
        rw [← sameId]
        exact mem _ old inside
      · exact mem _ order own

theorem unclaimed_of_noReuse {calls : List Call} (noReuse : NoReuse fuel book calls) :
    Trace.Meets (exec fuel) Unclaimed book calls :=
  Trace.Meets.imp (I := fun _ => True) (fun _ _ _ _ _ _ => trivial) (fun _ _ _ fresh => fresh.unclaimed) trivial noReuse

theorem Refines.shown_eq (refines : Refines book layout reference) : shown book = reference := by
  have buy := (refines.valid.resting_eq .buy).trans (refines.same .buy)
  have sell := (refines.valid.resting_eq .sell).trans (refines.same .sell)
  rw [shown, buy, sell]
  rfl

theorem exec_refines (refines : Refines book layout reference) (enough : n < fuel) {call : Call}
    (unclaimed : Unclaimed book call) : ∃ book' layout', exec fuel book call = some book' ∧
      Refines book' layout' (reference.exec n call) ∧ (Counted book layout → Counted book' layout') := by
  cases call with
  | limitOrder id price qty side =>
      have apart : Apart n (shown book) id price qty side := unclaimed
      rw [refines.shown_eq] at apart
      exact limitOrder_refines refines fuel enough apart
  | cancelOrder id =>
      obtain ⟨layout', refines'⟩ := cancelOrder_refines refines id
      exact ⟨book.cancelOrder id, layout', rfl, refines'⟩

theorem run_refines (refines : Refines book layout reference) (counted : Counted book layout) (enough : n < fuel)
    {calls later : List Call} (unclaimed : Trace.Meets (exec fuel) Unclaimed book (calls ++ later)) :
    ∃ book' layout', run fuel book calls = some book' ∧ Refines book' layout' (reference.run n calls) ∧
      Counted book' layout' ∧ Trace.Meets (exec fuel) Unclaimed book' later := by
  let R : OrderBook n → Reference → Prop := fun book reference =>
    ∃ layout, Refines book layout reference ∧ Counted book layout
  have simulates : ∀ book reference call, R book reference → Unclaimed book call →
      ∃ book', exec fuel book call = some book' ∧ R book' (reference.exec n call) := by
    intro book reference call related now
    obtain ⟨layout, refines, counted⟩ := related
    obtain ⟨book', layout', step, refines', keeps⟩ := exec_refines refines enough now
    exact ⟨book', step, layout', refines', keeps counted⟩
  obtain ⟨book', result, ⟨layout', refines', counted'⟩, rest⟩ :=
    Trace.run_simulates simulates ⟨layout, refines, counted⟩ unclaimed
  exact ⟨book', layout', result, refines', counted', rest⟩

end Steps

def Entered (side : Side) (order : Resting) (queue queue' : List Resting) : Prop :=
  ∃ ahead behind, queue = ahead ++ behind ∧ queue' = ahead ++ order :: behind ∧
    (∀ other ∈ ahead, ¬before side order.price other.price) ∧
    ∀ other ∈ behind, before side order.price other.price

def Sorted (side : Side) (queue : List Resting) : Prop :=
  queue.Pairwise fun first second => ¬before side second.price first.price

/-- What a call does to the resting orders, without reference to how the book is stored. -/
def Effect (n : Nat) (book book' : OrderBook n) : Call → Prop
  | .limitOrder id price qty side => ∃ residual,
      Sweeps (crosses side price) qty (book.resting side.opposite) residual (book'.resting side.opposite) ∧
      (if residual = 0 then book'.resting side = book.resting side
        else Entered side ⟨id, price, residual, side⟩ (book.resting side) (book'.resting side) ∨
          book'.resting side = book.resting side ∧
            (book'.resting .buy).length + (book'.resting .sell).length = n)
  | .cancelOrder id => ∀ side, book'.resting side = (book.resting side).filter (·.id ≠ id)

theorem place_entered {side : Side} (order : Resting) {queue : List Resting} (sorted : Sorted side queue) :
    Entered side order queue (Reference.place side order queue) := by
  induction queue with
  | nil => exact ⟨[], [], rfl, rfl, nofun, nofun⟩
  | cons first queue ih =>
      unfold Reference.place
      by_cases here : before side order.price first.price
      · rw [if_pos here]
        refine ⟨[], first :: queue, rfl, rfl, nofun, ?_⟩
        intro other member
        rcases List.mem_cons.mp member with rfl | member
        · exact here
        · have behind := List.rel_of_pairwise_cons sorted member
          rcases trichotomous_of (before side) first.price other.price with better | same | worse
          · exact IsTrans.trans _ _ _ here better
          · rwa [← same]
          · exact absurd worse behind
      · rw [if_neg here]
        obtain ⟨ahead, behind, split, placed, notBefore, worse⟩ := ih sorted.of_cons
        refine ⟨first :: ahead, behind, by rw [split]; rfl, by rw [placed]; rfl, ?_, worse⟩
        intro other member
        rcases List.mem_cons.mp member with rfl | member
        · exact here
        · exact notBefore other member

section Effects

variable {book : OrderBook n} {layout : Layout n} {reference : Reference}

theorem Valid.sorted (valid : Valid book layout) (side : Side) : Sorted side (book.resting side) := by
  rw [valid.resting_eq, view, Sorted, List.pairwise_flatMap]
  constructor
  · intro price _
    apply List.pairwise_of_forall_mem_list
    intro a first b second better
    rw [(valid.rep.priced first).1, (valid.rep.priced second).1] at better
    exact irrefl _ better
  · refine (book.limits side).keys_sorted.imp ?_
    intro p q less a first b second better
    rw [(valid.rep.priced first).1, (valid.rep.priced second).1] at better
    exact asymm less better

theorem Refines.resting_eq (refines : Refines book layout reference) (side : Side) :
    book.resting side = reference.side side := by
  rw [refines.valid.resting_eq, refines.same]

theorem Refines.effect {book' : OrderBook n} {layout' : Layout n} {call : Call}
    (refines : Refines book layout reference) (after : Refines book' layout' (reference.exec n call)) :
    Effect n book book' call := by
  cases call with
  | cancelOrder id =>
      intro side
      rw [after.resting_eq, refines.resting_eq]
      cases side <;> rfl
  | limitOrder id price qty side =>
      set target := Reference.fill (crosses side price) qty (reference.side side.opposite) with targetEq
      have result : reference.exec n (.limitOrder id price qty side) =
          if target.1 = 0 ∨ n ≤ (reference.setSide side.opposite target.2).size then
            reference.setSide side.opposite target.2
          else (reference.setSide side.opposite target.2).setSide side
            (Reference.place side ⟨id, price, target.1, side⟩ (reference.side side)) := by
        simp only [Reference.exec, Reference.limitOrder, ← targetEq, side_setSide_other _ _ (opposite_ne side)]
      have opposite : book'.resting side.opposite = target.2 := by
        rw [after.resting_eq, result]
        split_ifs
        · rw [side_setSide]
        · rw [side_setSide_other _ _ (opposite_ne side).symm, side_setSide]
      have sweeps := fill_sweeps (crosses side price) qty (reference.side side.opposite)
      refine ⟨target.1, ?_, ?_⟩
      · rw [opposite, refines.resting_eq]
        exact sweeps
      · have kept : target.1 = 0 ∨ n ≤ (reference.setSide side.opposite target.2).size →
            book'.resting side = book.resting side := by
          intro skipped
          rw [after.resting_eq, result, if_pos skipped, side_setSide_other _ _ (opposite_ne side),
            refines.resting_eq]
        split_ifs with used
        · exact kept (Or.inl used)
        · by_cases full : n ≤ (reference.setSide side.opposite target.2).size
          · refine Or.inr ⟨kept (Or.inr full), ?_⟩
            have size := after.size_add_free
            rw [result, if_pos (Or.inr full)] at size
            rw [after.resting_eq, after.resting_eq, result, if_pos (Or.inr full)]
            show (reference.setSide side.opposite target.2).size = n
            omega
          · refine Or.inl ?_
            rw [after.resting_eq, result, if_neg (by rw [not_or]; exact ⟨used, full⟩), side_setSide,
              ← refines.resting_eq]
            exact place_entered _ (refines.valid.sorted side)

end Effects

/-- Whatever calls are still to come, the book shows the resting orders of the reference after the
calls made so far, and the next call does to them what the trading rule says. -/
theorem run_price_time_priority (n fuel : Nat) (enough : n < fuel) (calls : List Call)
    (noReuse : NoReuse fuel (OrderBook.new n) calls) (made later : List Call) (split : calls = made ++ later) :
    ∃ book, run fuel (OrderBook.new n) made = some book ∧
      (∀ side, book.resting side = (Reference.run n Reference.new made).side side ∧
        Sorted side (book.resting side)) ∧
      ∀ call ∈ later.head?, ∃ book', exec fuel book call = some book' ∧ Effect n book book' call := by
  subst split
  obtain ⟨book, layout, result, refines, -, unclaimed⟩ :=
    run_refines (new_refines n) (new_counted n) enough (unclaimed_of_noReuse noReuse)
  refine ⟨book, result, fun side => ⟨refines.resting_eq side, refines.valid.sorted side⟩, ?_⟩
  intro call next
  cases later with
  | nil => cases next
  | cons first later =>
      obtain rfl : first = call := by simpa using next
      obtain ⟨book', layout', step, refines', -⟩ := exec_refines refines enough unclaimed.1
      exact ⟨book', step, refines.effect refines'⟩

theorem run_price_time_priority_sweep :
    let calls : List Call := [.limitOrder 1 101 5 .sell, .limitOrder 2 100 3 .sell, .limitOrder 3 101 4 .sell,
      .cancelOrder 1, .limitOrder 4 101 10 .buy]
    ∃ book, run 5 (OrderBook.new 4) calls = some book ∧
      book.resting .buy = [⟨4, 101, 3, .buy⟩] ∧ book.resting .sell = [] := by
  intro calls
  obtain ⟨book, result, same, -⟩ := run_price_time_priority 4 5 (by decide) calls (by decide +kernel)
    calls [] (List.append_nil calls).symm
  refine ⟨book, result, (same .buy).1.trans ?_, (same .sell).1.trans ?_⟩
  · decide +kernel
  · decide +kernel

/-! ## The representation invariant -/

/-- The nodes of a level: a non-empty doubly linked list with the right ends and no cycle, holding
orders of that side and price that still have a quantity. -/
structure LevelWellFormed (book : OrderBook n) (side : Side) (price : Price) (limit : Limit n)
    (q : List (Fin n)) : Prop where
  priced : limit.price = price
  nonempty : q ≠ []
  head : limit.head = q.head?
  tail : limit.tail = q.getLast?
  acyclic : q.Nodup
  walk : book.pool.follow n limit.head = q
  first : ∀ i ∈ q.head?, (book.pool.pool i).prev = none
  last : ∀ i ∈ q.getLast?, (book.pool.pool i).next = none
  inverse : ∀ i ∈ q, ∀ j, (book.pool.pool i).next = some j ↔ j ∈ q ∧ (book.pool.pool j).prev = some i
  orders : ∀ i ∈ q, (book.pool.pool i).price = price ∧ (book.pool.pool i).side = side ∧
    0 < (book.pool.pool i).qty

structure WellFormed (book : OrderBook n) (queue : Side → Price → List (Fin n)) (free : List (Fin n)) :
    Prop where
  index : ∀ id i, book.orderMap id = some i ↔
    (∃ side price, i ∈ queue side price) ∧ (book.pool.pool i).id = id
  level : ∀ side price limit, (book.limits side).find? price = some limit →
    LevelWellFormed book side price limit (queue side price)
  noLevel : ∀ side price, (book.limits side).find? price = none → queue side price = []
  uncrossed : ∀ bid ask, book.buyLimits.first? = some bid → book.sellLimits.first? = some ask → bid.1 < ask.1
  best : ∀ side first, (book.limits side).first? = some first →
    ∀ price ∈ (book.limits side).keys, price = first.1 ∨ before side first.1 price
  freeList : Chain (nexts book.pool) book.pool.freeList free
  nodes : ∀ i, (∃! place : Side × Price, i ∈ queue place.1 place.2) ∧ free.count i = 0 ∨
    (∀ side price, i ∉ queue side price) ∧ free.count i = 1

section WellFormed

variable {book : OrderBook n} {layout : Layout n}

theorem Valid.linked_iff (valid : Valid book layout) (i : Fin n) :
    layout.Linked book.pool i ↔ ∃ side price, i ∈ layout.queue side price :=
  ⟨fun linked => ⟨_, _, linked⟩, fun ⟨_, _, member⟩ => valid.rep.linked_of_mem member⟩

theorem segment_ends {orders : OrderPool n} {q : List (Fin n)}
    (segment : Segment (nexts orders) (prevs orders) none q none) :
    (∀ i ∈ q.head?, (orders.pool i).prev = none) ∧ ∀ i ∈ q.getLast?, (orders.pool i).next = none := by
  constructor
  · intro i first
    cases q with
    | nil => cases first
    | cons x q =>
        obtain rfl : x = i := by simpa using first
        exact segment.1
  · intro i last
    obtain ⟨front, rfl⟩ := List.getLast?_eq_some_iff.mp last
    exact (segment_append.mp segment).2.2.1

theorem Valid.level (valid : Valid book layout) {side : Side} {price : Price} {limit : Limit n}
    (found : (book.limits side).find? price = some limit) :
    LevelWellFormed book side price limit (layout.queue side price) := by
  obtain ⟨samePrice, queue⟩ := valid.rep.present side price limit found
  have known : price ∈ (book.limits side).keys := (OrderedMap.find?_isSome_iff _).mp ⟨limit, found⟩
  have fits := queue.nodup.length_le_card
  rw [Fintype.card_fin] at fits
  obtain ⟨first, last⟩ := segment_ends queue.linked
  refine ⟨samePrice, valid.nonempty side price known, queue.head_eq, queue.tail_eq, queue.nodup, ?_, first, last,
    fun i member j => queue.inverse member, ?_⟩
  · rw [queue.head_eq, follow_segment queue.linked fits]
  · intro i member
    obtain ⟨sameSide, samePrice⟩ := valid.rep.located side price i member
    have nonzero : (book.pool.pool i).qty ≠ 0 :=
      valid.positive side price (book.pool.pool i).resting (List.mem_map_of_mem member)
    exact ⟨samePrice, sameSide, UInt32.pos_iff_ne_zero.mpr nonzero⟩

theorem Valid.nodes (valid : Valid book layout) (i : Fin n) :
    (∃! place : Side × Price, i ∈ layout.queue place.1 place.2) ∧ layout.free.count i = 0 ∨
      (∀ side price, i ∉ layout.queue side price) ∧ layout.free.count i = 1 := by
  by_cases linked : layout.Linked book.pool i
  · refine Or.inl ⟨⟨((book.pool.pool i).side, (book.pool.pool i).price), linked, ?_⟩, ?_⟩
    · intro place member
      obtain ⟨sameSide, samePrice⟩ := valid.rep.located place.1 place.2 i member
      exact Prod.ext sameSide.symm samePrice.symm
    · exact List.count_eq_zero_of_not_mem fun free => (valid.rep.cover i).mp free linked
  · refine Or.inr ⟨fun side price member => linked (valid.rep.linked_of_mem member), ?_⟩
    exact List.count_eq_one_of_mem valid.rep.freeNodup ((valid.rep.cover i).mpr linked)

theorem Valid.wellFormed (valid : Valid book layout) : WellFormed book layout.queue layout.free := by
  refine ⟨?_, fun side price limit => valid.level, valid.rep.absent, ?_, ?_, valid.rep.free, valid.nodes⟩
  · intro id i
    rw [← valid.linked_iff]
    exact valid.rep.index id i
  · intro bid ask buy sell
    obtain ⟨_, -, bids⟩ := first?_keys (m := book.buyLimits) buy
    obtain ⟨_, -, asks⟩ := first?_keys (m := book.sellLimits) sell
    apply valid.uncrossed
    · show bid.1 ∈ book.buyLimits.keys
      rw [bids]
      exact List.mem_cons_self
    · show ask.1 ∈ book.sellLimits.keys
      rw [asks]
      exact List.mem_cons_self
  · intro side first isFirst price member
    obtain ⟨later, -, keys⟩ := first?_keys isFirst
    have sorted := (book.limits side).keys_sorted
    rw [keys] at sorted member
    rcases List.mem_cons.mp member with same | behind
    · exact Or.inl same
    · exact Or.inr (List.rel_of_pairwise_cons sorted behind)

end WellFormed

theorem run_wellFormed (n fuel : Nat) (enough : n < fuel) (calls : List Call)
    (noReuse : NoReuse fuel (OrderBook.new n) calls) (made later : List Call) (split : calls = made ++ later) :
    ∃ book, run fuel (OrderBook.new n) made = some book ∧ ∃ queue free, WellFormed book queue free := by
  subst split
  obtain ⟨book, layout, result, refines, -⟩ :=
    run_refines (new_refines n) (new_counted n) enough (unclaimed_of_noReuse noReuse)
  exact ⟨book, result, layout.queue, layout.free, refines.valid.wellFormed⟩

theorem run_wellFormed_recycling :
    let calls : List Call := [.limitOrder 1 101 5 .sell, .limitOrder 2 101 3 .sell, .limitOrder 3 102 9 .sell,
      .limitOrder 4 101 6 .buy, .limitOrder 5 99 7 .buy, .cancelOrder 2]
    ∃ book, run 3 (OrderBook.new 2) calls = some book ∧ ∃ queue free, WellFormed book queue free := by
  intro calls
  exact run_wellFormed 2 3 (by decide) calls (by decide +kernel) calls [] (List.append_nil calls).symm

/-! ## Identifiers that are used again -/

structure Cancellable (book : OrderBook n) : Prop where
  indexed : ∀ side, ∀ node ∈ book.restingNodes side, book.orderMap (book.pool.pool node).id = some node
  gone : ∀ id side, ∀ order ∈ (book.cancelOrder id).resting side, order.id ≠ id

theorem Refines.cancellable {book : OrderBook n} {layout : Layout n} {reference : Reference}
    (refines : Refines book layout reference) : Cancellable book := by
  constructor
  · intro side node member
    obtain ⟨⟨price, limit⟩, entry, walked⟩ := List.mem_flatMap.mp member
    have found : (book.limits side).find? price = some limit := (OrderedMap.find?_eq_some_iff _).mpr entry
    rw [(refines.valid.level found).walk] at walked
    exact (refines.valid.rep.index _ _).mpr ⟨refines.valid.rep.linked_of_mem walked, rfl⟩
  · intro id side order member
    obtain ⟨layout', refines', -⟩ := cancelOrder_refines refines id
    rw [refines'.resting_eq, side_cancelOrder] at member
    exact of_decide_eq_true (List.mem_filter.mp member).2

theorem run_cancellable (n fuel : Nat) (enough : n < fuel) (calls : List Call)
    (unclaimed : Trace.Meets (exec fuel) Unclaimed (OrderBook.new n) calls) (made later : List Call)
    (split : calls = made ++ later) :
    ∃ book, run fuel (OrderBook.new n) made = some book ∧ Cancellable book := by
  subst split
  obtain ⟨book, layout, result, refines, -⟩ := run_refines (new_refines n) (new_counted n) enough unclaimed
  exact ⟨book, result, refines.cancellable⟩

theorem run_cancellable_refilled :
    let calls : List Call := [.limitOrder 1 100 5 .sell, .limitOrder 1 100 2 .buy, .limitOrder 1 101 9 .buy,
      .cancelOrder 1]
    ∃ book, run 3 (OrderBook.new 2) calls = some book ∧ Cancellable book := by
  intro calls
  exact run_cancellable 2 3 (by decide) calls (by decide +kernel) calls [] (List.append_nil calls).symm

/-- Of two asks with one identifier the older one is still there when the identifier has been cancelled. -/
theorem ask_survives_cancel : ¬ ∀ book, run 3 (OrderBook.new 2)
    [.limitOrder 1 100 5 .sell, .limitOrder 1 101 5 .sell] = some book → Cancellable book := by
  intro cancellable
  have left : (run 3 (OrderBook.new 2) [.limitOrder 1 100 5 .sell, .limitOrder 1 101 5 .sell]).map
      (fun book => (book.cancelOrder 1).resting .sell) = some [⟨1, 100, 5, .sell⟩] := by decide +kernel
  obtain ⟨book, result, resting⟩ := Option.map_eq_some_iff.mp left
  have gone := (cancellable book result).gone 1 .sell ⟨1, 100, 5, .sell⟩ (resting ▸ List.mem_cons_self)
  exact gone rfl

end KnowledgeAcquisition.Proof.HFT
