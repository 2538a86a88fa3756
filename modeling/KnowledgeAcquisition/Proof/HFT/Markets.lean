import KnowledgeAcquisition.Proof.HFT.Runs

/-!
# How orders compose

The two halves of the matching kernel are written out one after the other. Seen through the reference they are one:
the book of the mirrored market is the mirrored book. The same view shows what an order does in two parts,
and what is left of one that is cancelled at once.
-/

namespace KnowledgeAcquisition.Proof.HFT
open KnowledgeAcquisition.HFT OrderBook Library

variable {n fuel : Nat}

def mirrorPrice (price : Price) : Price := ~~~price

def mirror (order : Resting) : Resting :=
  { order with price := mirrorPrice order.price, side := order.side.opposite }

def mirrorCall : Call → Call
  | .limitOrder id price qty side => .limitOrder id (mirrorPrice price) qty side.opposite
  | .cancelOrder id => .cancelOrder id

def mirrorBook (reference : Reference) : Reference :=
  ⟨reference.asks.map mirror, reference.bids.map mirror⟩

theorem mirrorPrice_lt (a b : Price) : mirrorPrice a < mirrorPrice b ↔ b < a := by
  have small := a.toNat_lt
  have small' := b.toNat_lt
  rw [UInt32.lt_iff_toNat_lt, UInt32.lt_iff_toNat_lt, mirrorPrice, mirrorPrice, UInt32.toNat_not, UInt32.toNat_not]
  simp only [UInt32.size]
  omega

theorem before_mirror (side : Side) (a b : Price) :
    before side.opposite (mirrorPrice a) (mirrorPrice b) ↔ before side a b := by
  cases side <;> exact mirrorPrice_lt _ _

theorem crosses_mirror (side : Side) (price best : Price) :
    crosses side.opposite (mirrorPrice price) (mirrorPrice best) = crosses side price best := by
  cases side <;> simp only [Side.opposite, crosses, gt_iff_lt, mirrorPrice_lt]

@[simp] theorem side_mirror (reference : Reference) (side : Side) :
    (mirrorBook reference).side side.opposite = (reference.side side).map mirror := by
  cases side <;> rfl

theorem setSide_mirror (reference : Reference) (side : Side) (orders : List Resting) :
    (mirrorBook reference).setSide side.opposite (orders.map mirror) =
      mirrorBook (reference.setSide side orders) := by
  cases side <;> rfl

theorem fill_mirror (side : Side) (price : Price) (qty : Quantity) (queue : List Resting) :
    Reference.fill (crosses side.opposite (mirrorPrice price)) qty (queue.map mirror) =
      ((Reference.fill (crosses side price) qty queue).1,
        (Reference.fill (crosses side price) qty queue).2.map mirror) := by
  induction queue generalizing qty with
  | nil => rfl
  | cons order queue ih =>
      simp only [List.map_cons, Reference.fill, mirror, crosses_mirror]
      split_ifs
      · rfl
      · exact ih (qty - order.qty)
      · rfl

theorem place_mirror (side : Side) (order : Resting) (queue : List Resting) :
    Reference.place side.opposite (mirror order) (queue.map mirror) =
      (Reference.place side order queue).map mirror := by
  induction queue with
  | nil => rfl
  | cons first queue ih =>
      have same : before side.opposite (mirror order).price (mirror first).price ↔
          before side order.price first.price := before_mirror side order.price first.price
      by_cases ahead : before side order.price first.price
      · simp only [List.map_cons, Reference.place, if_pos ahead, if_pos (same.mpr ahead)]
      · simp only [List.map_cons, Reference.place, if_neg ahead, if_neg (same.not.mpr ahead), ih]

theorem size_mirror (reference : Reference) : (mirrorBook reference).size = reference.size := by
  simp only [Reference.size, mirrorBook, List.length_map]
  omega

theorem limitOrder_mirror (reference : Reference) (id : OrderID) (price : Price) (qty : Quantity) (side : Side) :
    (mirrorBook reference).limitOrder n id (mirrorPrice price) qty side.opposite =
      mirrorBook (reference.limitOrder n id price qty side) := by
  simp only [Reference.limitOrder, side_mirror, fill_mirror, setSide_mirror, size_mirror]
  split_ifs
  · rfl
  · have entered := place_mirror side
      ⟨id, price, (Reference.fill (crosses side price) qty (reference.side side.opposite)).1, side⟩
      ((reference.setSide side.opposite
        (Reference.fill (crosses side price) qty (reference.side side.opposite)).2).side side)
    exact (congrArg _ entered).trans (setSide_mirror _ side _)

theorem exec_mirror (reference : Reference) (call : Call) :
    (mirrorBook reference).exec n (mirrorCall call) = mirrorBook (reference.exec n call) := by
  cases call with
  | limitOrder id price qty side => exact limitOrder_mirror reference id price qty side
  | cancelOrder id =>
      have kept : ∀ orders : List Resting,
          (orders.map mirror).filter (·.id ≠ id) = (orders.filter (·.id ≠ id)).map mirror := by
        intro orders
        rw [List.filter_map]
        rfl
      simp only [mirrorCall, Reference.exec, Reference.cancelOrder, mirrorBook, kept]

theorem apart_mirror {reference : Reference} {id : OrderID} {price : Price} {qty : Quantity} {side : Side}
    (apart : Apart n reference id price qty side) :
    Apart n (mirrorBook reference) id (mirrorPrice price) qty side.opposite := by
  unfold Apart at apart ⊢
  rw [side_mirror, fill_mirror, side_mirror]
  simp only [List.length_map]
  refine apart.imp_right (Or.imp_right ?_)
  intro others order member
  rw [← List.map_append] at member
  obtain ⟨old, inside, rfl⟩ := List.mem_map.mp member
  exact others old inside

theorem unclaimed_mirror {book image : OrderBook n} {layout layout' : Layout n} {reference : Reference}
    (refines : Refines book layout reference) (mirrored : Refines image layout' (mirrorBook reference))
    {call : Call} (unclaimed : Unclaimed book call) : Unclaimed image (mirrorCall call) := by
  cases call with
  | cancelOrder id => trivial
  | limitOrder id price qty side =>
      show Apart n (shown image) id (mirrorPrice price) qty side.opposite
      rw [mirrored.shown_eq]
      apply apart_mirror
      rw [← refines.shown_eq]
      exact unclaimed

theorem meets_mirror {book image : OrderBook n} {layout layout' : Layout n} {reference : Reference}
    (refines : Refines book layout reference) (mirrored : Refines image layout' (mirrorBook reference))
    (enough : n < fuel) {calls : List Call} (unclaimed : Trace.Meets (exec fuel) Unclaimed book calls) :
    Trace.Meets (exec fuel) Unclaimed image (calls.map mirrorCall) := by
  induction calls generalizing book image layout layout' reference with
  | nil => trivial
  | cons call calls ih =>
      obtain ⟨now, later⟩ := unclaimed
      have here := unclaimed_mirror refines mirrored now
      obtain ⟨book', layout₁, stepped, refines', -⟩ := exec_refines refines enough now
      obtain ⟨image', layout₂, reflected, mirrored', -⟩ := exec_refines mirrored enough here
      rw [exec_mirror] at mirrored'
      exact Trace.Meets.cons here reflected (ih refines' mirrored' (later book' stepped))

theorem run_mirror (reference : Reference) (calls : List Call) :
    (mirrorBook reference).run n (calls.map mirrorCall) = mirrorBook (reference.run n calls) := by
  induction calls generalizing reference with
  | nil => rfl
  | cons call calls ih =>
      have step : (mirrorBook reference).run n ((call :: calls).map mirrorCall) =
          ((mirrorBook reference).exec n (mirrorCall call)).run n (calls.map mirrorCall) := rfl
      rw [step, exec_mirror, ih]
      rfl

theorem run_mirrored (n fuel : Nat) (enough : n < fuel) (calls : List Call)
    (noReuse : NoReuse fuel (OrderBook.new n) calls) :
    ∃ book image, run fuel (OrderBook.new n) calls = some book ∧
      run fuel (OrderBook.new n) (calls.map mirrorCall) = some image ∧
      ∀ side : Side, image.resting side.opposite = (book.resting side).map mirror := by
  have unclaimed := unclaimed_of_noReuse noReuse
  have reflected := meets_mirror (new_refines n) (new_refines n) enough unclaimed
  rw [← List.append_nil calls] at unclaimed
  rw [← List.append_nil (calls.map mirrorCall)] at reflected
  obtain ⟨book, layout, ran, refines, -⟩ := run_refines (new_refines n) (new_counted n) enough unclaimed
  obtain ⟨image, layout', ranImage, refinesImage, -⟩ := run_refines (new_refines n) (new_counted n) enough reflected
  refine ⟨book, image, ran, ranImage, fun side => ?_⟩
  have same : Reference.run n Reference.new (calls.map mirrorCall) = _ := run_mirror Reference.new calls
  rw [refinesImage.resting_eq, refines.resting_eq, same, side_mirror]

theorem run_mirrored_sweep :
    let calls : List Call := [.limitOrder 1 101 5 .sell, .limitOrder 2 100 3 .sell, .limitOrder 4 101 6 .buy]
    ∃ book image, run 5 (OrderBook.new 4) calls = some book ∧
      run 5 (OrderBook.new 4) (calls.map mirrorCall) = some image ∧
      ∀ side : Side, image.resting side.opposite = (book.resting side).map mirror := by
  intro calls
  exact run_mirrored 4 5 (by decide) calls (by decide +kernel)

/-! ## An order in two parts -/

theorem fill_length (accepts : Price → Bool) (qty : Quantity) (queue : List Resting) :
    (Reference.fill accepts qty queue).2.length ≤ queue.length := by
  induction queue generalizing qty with
  | nil => exact le_rfl
  | cons order queue ih =>
      unfold Reference.fill
      split_ifs
      · exact le_rfl
      · exact (ih _).trans (Nat.le_succ _)
      · exact le_rfl

theorem qty_pos {qty : Quantity} (pending : qty ≠ 0) : 0 < qty.toNat :=
  Nat.pos_of_ne_zero fun zero => pending (UInt32.toNat_inj.mp zero)

theorem toNat_sum (first second : Quantity) (small : first.toNat + second.toNat < 2 ^ 32) :
    (first + second).toNat = first.toNat + second.toNat := by
  rw [UInt32.toNat_add, Nat.mod_eq_of_lt small]

theorem fill_refused {accepts : Price → Bool} (qty : Quantity) {order : Resting} (queue : List Resting)
    (refused : accepts order.price = false) : Reference.fill accepts qty (order :: queue) = (qty, order :: queue) := by
  simp [Reference.fill, refused]

/-- An order that begins inside a resting order ends as the second part of it does. -/
theorem fill_begun {accepts : Price → Bool} {first second : Quantity} {order : Resting} (queue : List Resting)
    (small : first.toNat + second.toNat < 2 ^ 32) (pending : first ≠ 0) (accepted : accepts order.price = true)
    (part : first < order.qty) : Reference.fill accepts (first + second) (order :: queue) =
      Reference.fill accepts second ({ order with qty := order.qty - first } :: queue) := by
  let rest : Resting := { order with qty := order.qty - first }
  have sum := toNat_sum first second small
  have positive := qty_pos pending
  have left := UInt32.toNat_sub_of_le order.qty first (UInt32.le_of_lt part)
  have partNat := UInt32.lt_iff_toNat_lt.mp part
  have pendingSum : first + second ≠ 0 := by
    intro zero
    rw [zero] at sum
    simp at sum
    omega
  by_cases none : second = 0
  · subst none
    rw [fill_zero, UInt32.add_zero, fill_part pending accepted part]
  by_cases whole : order.qty - first ≤ second
  · have wholeNat := UInt32.le_iff_toNat_le.mp whole
    have wholeSum : order.qty ≤ first + second := by
      rw [UInt32.le_iff_toNat_le]
      omega
    have difference : first + second - order.qty = second - (order.qty - first) := by
      apply UInt32.toNat_inj.mp
      rw [UInt32.toNat_sub_of_le _ _ wholeSum, UInt32.toNat_sub_of_le _ _ whole]
      omega
    rw [fill_whole pendingSum accepted wholeSum, difference]
    exact (@fill_whole accepts second rest queue none accepted whole).symm
  · have partRest : second < order.qty - first := UInt32.not_le.mp whole
    have restNat := UInt32.lt_iff_toNat_lt.mp partRest
    have partSum : first + second < order.qty := by
      rw [UInt32.lt_iff_toNat_lt]
      omega
    have difference : order.qty - (first + second) = order.qty - first - second := by
      apply UInt32.toNat_inj.mp
      rw [UInt32.toNat_sub_of_le _ _ (UInt32.le_of_lt partSum),
        UInt32.toNat_sub_of_le _ _ (UInt32.le_of_lt partRest)]
      omega
    rw [fill_part pendingSum accepted partSum, difference]
    exact (@fill_part accepts second rest queue none accepted partRest).symm

theorem fill_add (accepts : Price → Bool) {first second : Quantity} (queue : List Resting)
    (small : first.toNat + second.toNat < 2 ^ 32) :
    let start := Reference.fill accepts first queue
    let next := Reference.fill accepts second start.2
    let whole := Reference.fill accepts (first + second) queue
    whole.2 = next.2 ∧ whole.1.toNat = start.1.toNat + next.1.toNat ∧ (start.1 ≠ 0 → next = (second, start.2)) := by
  induction queue generalizing first with
  | nil => exact ⟨rfl, toNat_sum first second small, fun _ => rfl⟩
  | cons order queue ih =>
      by_cases none : first = 0
      · subst none
        simp [fill_zero]
      cases accepted : accepts order.price with
      | false => simp [fill_refused _ queue accepted, toNat_sum first second small]
      | true =>
          by_cases whole : order.qty ≤ first
          · have sum := toNat_sum first second small
            have less := UInt32.toNat_sub_of_le first order.qty whole
            have positive := qty_pos none
            have wholeNat := UInt32.le_iff_toNat_le.mp whole
            have wholeSum : order.qty ≤ first + second := by
              rw [UInt32.le_iff_toNat_le]
              omega
            have pending : first + second ≠ 0 := by
              intro zero
              rw [zero] at sum
              simp at sum
              omega
            have difference : first + second - order.qty = first - order.qty + second := by
              apply UInt32.toNat_inj.mp
              rw [UInt32.toNat_sub_of_le _ _ wholeSum, toNat_sum (first - order.qty) second (by omega)]
              omega
            rw [fill_whole none accepted whole, fill_whole pending accepted wholeSum, difference]
            exact ih (by omega)
          · have part : first < order.qty := UInt32.not_le.mp whole
            rw [fill_begun queue small none accepted part, fill_part none accepted part]
            simp

theorem totalQty_place (side : Side) (order : Resting) (queue : List Resting) :
    totalQty (Reference.place side order queue) = order.qty.toNat + totalQty queue := by
  induction queue with
  | nil => rfl
  | cons first queue ih =>
      unfold Reference.place
      split_ifs
      · rfl
      · simp only [totalQty, List.map_cons, List.sum_cons] at ih ⊢
        omega

theorem fresh_iff (book : OrderBook n) (id : OrderID) (price : Price) (qty : Quantity) (side : Side) :
    Fresh book (.limitOrder id price qty side) ↔ ∀ s, ∀ order ∈ book.resting s, order.id ≠ id := by
  constructor
  · intro fresh s order member
    apply fresh order
    cases s
    · exact List.mem_append_left _ member
    · exact List.mem_append_right _ member
  · intro fresh order member
    rcases List.mem_append.mp member with inside | inside
    · exact fresh .buy order inside
    · exact fresh .sell order inside

section Effects

variable {reference : Reference} {id : OrderID} {price : Price} {qty : Quantity} {side : Side}

theorem limitOrder_opposite : (reference.limitOrder n id price qty side).side side.opposite =
    (Reference.fill (crosses side price) qty (reference.side side.opposite)).2 := by
  simp only [Reference.limitOrder]
  split_ifs
  · simp
  · cases side <;> rfl

theorem limitOrder_own : (reference.limitOrder n id price qty side).side side =
    let filled := Reference.fill (crosses side price) qty (reference.side side.opposite)
    if filled.1 = 0 ∨ n ≤ filled.2.length + (reference.side side).length then reference.side side
    else Reference.place side ⟨id, price, filled.1, side⟩ (reference.side side) := by
  have size := size_setSide reference side
    (Reference.fill (crosses side price) qty (reference.side side.opposite)).2
  simp only [Reference.limitOrder, size]
  split_ifs <;> cases side <;> rfl

theorem mem_place {order other : Resting} {queue : List Resting}
    (member : other ∈ Reference.place side order queue) : other = order ∨ other ∈ queue := by
  induction queue with
  | nil => exact Or.inl (List.mem_singleton.mp member)
  | cons first queue ih =>
      unfold Reference.place at member
      split_ifs at member
      · exact List.mem_cons.mp member
      · rcases List.mem_cons.mp member with rfl | later
        · exact Or.inr List.mem_cons_self
        · exact (ih later).imp_right (List.mem_cons_of_mem first)

theorem limitOrder_unused {other : OrderID} (unused : ∀ s, ∀ order ∈ reference.side s, order.id ≠ other)
    (apart : id ≠ other) (s : Side) :
    ∀ order ∈ (reference.limitOrder n id price qty side).side s, order.id ≠ other := by
  intro order member
  by_cases own : s = side
  · subst own
    rw [limitOrder_own] at member
    dsimp only at member
    split_ifs at member
    · exact unused s order member
    · rcases mem_place member with rfl | old
      · exact apart
      · exact unused s order old
  · obtain rfl : s = side.opposite := by cases s <;> cases side <;> first | rfl | exact absurd rfl own
    rw [limitOrder_opposite] at member
    obtain ⟨old, inside, same⟩ := fill_ids member
    rw [← same]
    exact unused _ old inside

theorem filter_unused {queue : List Resting} (unused : ∀ order ∈ queue, order.id ≠ id) :
    queue.filter (·.id ≠ id) = queue := by
  apply List.filter_eq_self.mpr
  intro order member
  simpa using unused order member

theorem filter_place {queue : List Resting} (unused : ∀ order ∈ queue, order.id ≠ id) :
    (Reference.place side ⟨id, price, qty, side⟩ queue).filter (·.id ≠ id) = queue := by
  induction queue with
  | nil => simp [Reference.place]
  | cons first queue ih =>
      have here := unused first List.mem_cons_self
      have later := ih fun order member => unused order (List.mem_cons_of_mem first member)
      unfold Reference.place
      split_ifs
      · rw [List.filter_cons_of_neg (by simp)]
        exact filter_unused unused
      · rw [List.filter_cons_of_pos (by simpa using here), later]

theorem length_place (order : Resting) (queue : List Resting) :
    (Reference.place side order queue).length = queue.length + 1 := by
  induction queue with
  | nil => rfl
  | cons first queue ih =>
      unfold Reference.place
      split_ifs
      · rfl
      · rw [List.length_cons, ih, List.length_cons]

theorem totalQty_limitOrder
    (room : (reference.side side.opposite).length + (reference.side side).length < n) :
    totalQty ((reference.limitOrder n id price qty side).side side) = totalQty (reference.side side) +
        (Reference.fill (crosses side price) qty (reference.side side.opposite)).1.toNat ∧
      ((reference.limitOrder n id price qty side).side side).length ≤ (reference.side side).length + 1 := by
  have shorter := fill_length (crosses side price) qty (reference.side side.opposite)
  rw [limitOrder_own]
  dsimp only
  split_ifs with kept
  · have filled : (Reference.fill (crosses side price) qty (reference.side side.opposite)).1 = 0 :=
      kept.resolve_right (by omega)
    rw [filled]
    exact ⟨rfl, Nat.le_succ _⟩
  · rw [totalQty_place, length_place]
    exact ⟨Nat.add_comm _ _, le_rfl⟩

end Effects

section Books

variable {book : OrderBook n} {layout : Layout n} {reference : Reference} {id : OrderID} {price : Price}
  {qty : Quantity} {side : Side}

theorem reached_refines {calls : List Call} (noReuse : NoReuse fuel (OrderBook.new n) calls) (enough : n < fuel)
    (ran : run fuel (OrderBook.new n) calls = some book) : ∃ layout reference, Refines book layout reference := by
  have unclaimed := unclaimed_of_noReuse noReuse
  rw [← List.append_nil calls] at unclaimed
  obtain ⟨book', layout, ran', refines, -⟩ := run_refines (new_refines n) (new_counted n) enough unclaimed
  rw [ran] at ran'
  obtain rfl := Option.some.inj ran'
  exact ⟨layout, _, refines⟩

theorem Refines.limitOrder (refines : Refines book layout reference) (enough : n < fuel)
    (unused : ∀ s, ∀ order ∈ reference.side s, order.id ≠ id) (price : Price) (qty : Quantity) (side : Side) :
    ∃ book' layout', exec fuel book (.limitOrder id price qty side) = some book' ∧
      Refines book' layout' (reference.limitOrder n id price qty side) := by
  have fresh : Fresh book (.limitOrder id price qty side) := by
    rw [fresh_iff]
    intro s
    rw [refines.resting_eq]
    exact unused s
  obtain ⟨book', layout', stepped, refines', -⟩ := exec_refines refines enough fresh.unclaimed
  exact ⟨book', layout', stepped, refines'⟩

theorem run_pair {first second : Call} {book' book'' : OrderBook n} (start : exec fuel book first = some book')
    (next : exec fuel book' second = some book'') : run fuel book [first, second] = some book'' := by
  rw [run, Trace.run_cons, start]
  show Trace.run (exec fuel) book' [second] = _
  rw [Trace.run_cons, next]
  rfl

end Books

theorem split_order (n fuel : Nat) (enough : n < fuel) (calls : List Call)
    (noReuse : NoReuse fuel (OrderBook.new n) calls) (book : OrderBook n)
    (ran : run fuel (OrderBook.new n) calls = some book) (id i j : OrderID) (apart : i ≠ j)
    (unused : ∀ s, ∀ order ∈ book.resting s, order.id ∉ [id, i, j]) (price : Price) (first second : Quantity)
    (small : first.toNat + second.toNat < 2 ^ 32) (side : Side) :
    ∃ once twice, exec fuel book (.limitOrder id price (first + second) side) = some once ∧
      run fuel book [.limitOrder i price first side, .limitOrder j price second side] = some twice ∧
      twice.resting side.opposite = once.resting side.opposite ∧
      ((book.resting side).length + (book.resting side.opposite).length + 2 ≤ n →
        totalQty (twice.resting side) = totalQty (once.resting side)) := by
  obtain ⟨layout, reference, refines⟩ := reached_refines noReuse enough ran
  simp only [refines.resting_eq] at unused ⊢
  have unusedBy : ∀ k ∈ [id, i, j], ∀ s, ∀ order ∈ reference.side s, order.id ≠ k := by
    intro k member s order inside same
    exact unused s order inside (same ▸ member)
  obtain ⟨once, layout₁, whole, refinesOnce⟩ :=
    refines.limitOrder enough (unusedBy id (by simp)) price (first + second) side
  obtain ⟨start, layout₂, started, refinesStart⟩ :=
    refines.limitOrder enough (unusedBy i (by simp)) price first side
  obtain ⟨twice, layout₃, next, refinesTwice⟩ := refinesStart.limitOrder enough
    (limitOrder_unused (unusedBy j (by simp)) apart) price second side
  refine ⟨once, twice, whole, run_pair started next, ?_, ?_⟩
  · rw [refinesTwice.resting_eq, refinesOnce.resting_eq, limitOrder_opposite, limitOrder_opposite,
      limitOrder_opposite]
    exact (fill_add _ _ small).1.symm
  · intro room
    have shorter := fill_length (crosses side price) first (reference.side side.opposite)
    obtain ⟨totalOnce, -⟩ := @totalQty_limitOrder n reference id price (first + second) side (by omega)
    obtain ⟨totalStart, longer⟩ := @totalQty_limitOrder n reference i price first side (by omega)
    obtain ⟨totalTwice, -⟩ := @totalQty_limitOrder n (reference.limitOrder n i price first side) j price second side
      (by rw [limitOrder_opposite]; omega)
    obtain ⟨-, sum, -⟩ := fill_add (crosses side price) (reference.side side.opposite) small
    rw [limitOrder_opposite] at totalTwice
    rw [refinesTwice.resting_eq, refinesOnce.resting_eq]
    omega

theorem split_order_sweep :
    let calls : List Call := [.limitOrder 1 101 5 .sell, .limitOrder 2 100 3 .sell]
    ∃ book, run 5 (OrderBook.new 4) calls = some book ∧
      ∃ once twice, exec 5 book (.limitOrder 9 101 (4 + 6) .buy) = some once ∧
        run 5 book [.limitOrder 7 101 4 .buy, .limitOrder 8 101 6 .buy] = some twice ∧
        twice.resting .sell = once.resting .sell ∧
        ((book.resting .buy).length + (book.resting .sell).length + 2 ≤ 4 →
          totalQty (twice.resting .buy) = totalQty (once.resting .buy)) := by
  intro calls
  have noReuse : NoReuse 5 (OrderBook.new 4) calls := by decide +kernel
  have resting : (run 5 (OrderBook.new 4) calls).map (fun book => (book.resting .buy, book.resting .sell)) =
      some ([], [⟨2, 100, 3, .sell⟩, ⟨1, 101, 5, .sell⟩]) := by decide +kernel
  obtain ⟨book, ran, same⟩ := Option.map_eq_some_iff.mp resting
  obtain ⟨bids, asks⟩ := Prod.mk.inj same
  refine ⟨book, ran, split_order 4 5 (by decide) calls noReuse book ran 9 7 8 (by decide) ?_ 101 4 6 (by decide) .buy⟩
  intro side order member
  cases side with
  | buy =>
      rw [bids] at member
      cases member
  | sell =>
      rw [asks] at member
      revert order
      decide

theorem immediate_or_cancel (n fuel : Nat) (enough : n < fuel) (calls : List Call)
    (noReuse : NoReuse fuel (OrderBook.new n) calls) (book : OrderBook n)
    (ran : run fuel (OrderBook.new n) calls = some book) (id : OrderID)
    (unused : ∀ s, ∀ order ∈ book.resting s, order.id ≠ id) (price : Price) (qty : Quantity) (side : Side) :
    ∃ after, run fuel book [.limitOrder id price qty side, .cancelOrder id] = some after ∧
      after.resting side = book.resting side ∧
      after.resting side.opposite =
        (Reference.fill (crosses side price) qty (book.resting side.opposite)).2 := by
  obtain ⟨layout, reference, refines⟩ := reached_refines noReuse enough ran
  simp only [refines.resting_eq] at unused ⊢
  obtain ⟨entered, layout₁, started, refinesEntered⟩ := refines.limitOrder enough unused price qty side
  have cancels : Unclaimed entered (.cancelOrder id) := trivial
  obtain ⟨after, layout₂, cancelled, refinesAfter, -⟩ := exec_refines refinesEntered enough cancels
  refine ⟨after, run_pair started cancelled, ?_, ?_⟩
  · rw [refinesAfter.resting_eq]
    simp only [Reference.exec, side_cancelOrder, limitOrder_own]
    split_ifs
    · exact filter_unused (unused side)
    · exact filter_place (unused side)
  · rw [refinesAfter.resting_eq]
    simp only [Reference.exec, side_cancelOrder, limitOrder_opposite]
    apply filter_unused
    intro order member
    obtain ⟨old, inside, same⟩ := fill_ids member
    rw [← same]
    exact unused _ old inside

theorem immediate_or_cancel_sweep :
    let calls : List Call := [.limitOrder 1 101 5 .sell, .limitOrder 2 100 3 .sell]
    ∃ book, run 5 (OrderBook.new 4) calls = some book ∧
      ∃ after, run 5 book [.limitOrder 9 100 10 .buy, .cancelOrder 9] = some after ∧
        after.resting .buy = book.resting .buy ∧
        after.resting .sell = (Reference.fill (crosses .buy 100) 10 (book.resting .sell)).2 := by
  intro calls
  have noReuse : NoReuse 5 (OrderBook.new 4) calls := by decide +kernel
  have resting : (run 5 (OrderBook.new 4) calls).map (fun book => (book.resting .buy, book.resting .sell)) =
      some ([], [⟨2, 100, 3, .sell⟩, ⟨1, 101, 5, .sell⟩]) := by decide +kernel
  obtain ⟨book, ran, same⟩ := Option.map_eq_some_iff.mp resting
  obtain ⟨bids, asks⟩ := Prod.mk.inj same
  refine ⟨book, ran, immediate_or_cancel 4 5 (by decide) calls noReuse book ran 9 ?_ 100 10 .buy⟩
  intro side order member
  cases side with
  | buy =>
      rw [bids] at member
      cases member
  | sell =>
      rw [asks] at member
      revert order
      decide

end KnowledgeAcquisition.Proof.HFT
