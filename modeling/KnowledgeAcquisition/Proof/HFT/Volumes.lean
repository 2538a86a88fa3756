import KnowledgeAcquisition.Proof.HFT.Runs

/-!
# Volumes of the levels

The volume of a level is kept in 32 bits. It is the sum of the quantities at the level as long as they have one.
-/

namespace KnowledgeAcquisition.Proof.HFT
open KnowledgeAcquisition.HFT OrderBook Library Links

variable {n : Nat} {book : OrderBook n} {layout : Layout n} {side : Side} {price : Price}

theorem sum_toNat (quantities : List Quantity) : quantities.sum.toNat = (quantities.map UInt32.toNat).sum % 2 ^ 32 := by
  induction quantities with
  | nil => rfl
  | cons qty quantities ih =>
      rw [List.sum_cons, List.map_cons, List.sum_cons, UInt32.toNat_add, ih, Nat.add_mod_mod]

theorem Tallied.toNat {limit : Limit n} (tallied : Tallied book.pool layout side price limit) :
    limit.totalVolume.toNat = totalQty (ordersAt book.pool layout side price) % 2 ^ 32 := by
  rw [tallied, sum_toNat, List.map_map]
  rfl

def ordersPriced (orders : List Resting) (price : Price) : List Resting := orders.filter (·.price = price)

theorem ordersPriced_flatMap (prices : List Price) (orders : Price → List Resting) :
    ordersPriced (prices.flatMap orders) price = prices.flatMap fun p => ordersPriced (orders p) price :=
  List.filter_flatMap ..

theorem Valid.filter_priced (valid : Valid book layout) (p : Price) :
    ordersPriced (ordersAt book.pool layout side p) price =
      if p = price then ordersAt book.pool layout side price else [] := by
  split_ifs with here
  · subst here
    apply List.filter_eq_self.mpr
    intro order member
    exact decide_eq_true (valid.rep.priced member).1
  · apply List.filter_eq_nil_iff.mpr
    intro order member same
    exact here ((valid.rep.priced member).1.symm.trans (of_decide_eq_true same))

theorem flatMap_none {prices : List Price} (absent : price ∉ prices) (orders : List Resting) :
    (prices.flatMap fun p => if p = price then orders else []) = [] := by
  apply List.flatMap_eq_nil_iff.mpr
  intro p member
  apply if_neg
  rintro rfl
  exact absent member

theorem flatMap_only {prices : List Price} (nodup : prices.Nodup) (known : price ∈ prices) (orders : List Resting) :
    (prices.flatMap fun p => if p = price then orders else []) = orders := by
  induction prices with
  | nil => cases known
  | cons first prices ih =>
      obtain ⟨absent, nodup⟩ := List.nodup_cons.mp nodup
      rw [List.flatMap_cons]
      cases List.mem_cons.mp known with
      | inl here =>
          subst here
          rw [if_pos rfl, flatMap_none absent, List.append_nil]
      | inr later =>
          have other : first ≠ price := fun same => absent (same ▸ later)
          rw [if_neg other, List.nil_append, ih nodup later]

theorem Valid.priced_eq (valid : Valid book layout) :
    ordersPriced (view book layout side) price = ordersAt book.pool layout side price := by
  have each : (fun p => ordersPriced (ordersAt book.pool layout side p) price) = fun p =>
      if p = price then ordersAt book.pool layout side price else [] := by
    funext p
    exact valid.filter_priced p
  rw [view, ordersPriced_flatMap, each]
  by_cases known : price ∈ (book.limits side).keys
  · exact flatMap_only (book.limits side).keys_nodup known _
  · rw [flatMap_none known, ordersAt, valid.rep.absent side price ((OrderedMap.find?_eq_none_iff _).mpr known),
      List.map_nil]

def VolumesExact (book : OrderBook n) : Prop :=
  ∀ side price limit, (book.limits side).find? price = some limit → limit.totalVolume.toNat =
    ((book.pool.follow n limit.head).map fun node => (book.pool.pool node).qty.toNat).sum

theorem volumesExact_iff {reference : Reference} (refines : Refines book layout reference)
    (counted : Counted book layout) :
    VolumesExact book ↔ ∀ side price, totalQty (ordersPriced (reference.side side) price) < 2 ^ 32 := by
  have valid := refines.valid
  have atLevel : ∀ side price limit, (book.limits side).find? price = some limit →
      ((book.pool.follow n limit.head).map fun node => (book.pool.pool node).qty.toNat).sum =
        totalQty (ordersAt book.pool layout side price) := by
    intro side price limit found
    rw [(valid.level found).walk, totalQty, ordersAt, List.map_map]
    rfl
  have priced : ∀ side price, ordersPriced (reference.side side) price = ordersAt book.pool layout side price := by
    intro side price
    rw [← refines.same, valid.priced_eq]
  constructor
  · intro exact_ side price
    rw [priced]
    cases found : (book.limits side).find? price with
    | none =>
        rw [ordersAt, valid.rep.absent side price found]
        exact Nat.two_pow_pos 32
    | some limit =>
        rw [← atLevel side price limit found, ← exact_ side price limit found]
        exact limit.totalVolume.toNat_lt
  · intro small side price limit found
    have bounded := small side price
    rw [priced] at bounded
    rw [atLevel side price limit found, (counted side price limit found).toNat, Nat.mod_eq_of_lt bounded]

theorem run_volumes_exact_iff (n fuel : Nat) (enough : n < fuel) (calls : List Call)
    (noReuse : NoReuse fuel (OrderBook.new n) calls) (made later : List Call) (split : calls = made ++ later) :
    ∃ book, run fuel (OrderBook.new n) made = some book ∧
      (VolumesExact book ↔ ∀ side price,
        totalQty (ordersPriced ((Reference.run n Reference.new made).side side) price) < 2 ^ 32) := by
  subst split
  obtain ⟨book, layout, result, refines, counted, -⟩ :=
    run_refines (new_refines n) (new_counted n) enough (unclaimed_of_noReuse noReuse)
  exact ⟨book, result, volumesExact_iff refines counted⟩

theorem run_volumes_exact_small :
    let calls : List Call := [.limitOrder 1 100 5 .sell, .limitOrder 2 100 7 .sell, .limitOrder 3 100 9 .sell,
      .limitOrder 4 100 6 .buy, .cancelOrder 3]
    ∃ book, run 4 (OrderBook.new 3) calls = some book ∧
      (VolumesExact book ↔ ∀ side price,
        totalQty (ordersPriced ((Reference.run 3 Reference.new calls).side side) price) < 2 ^ 32) := by
  intro calls
  exact run_volumes_exact_iff 3 4 (by decide) calls (by decide +kernel) calls [] (List.append_nil calls).symm

/-- Two asks of 2^31 at one price have a volume of zero. -/
theorem volume_wraps : ¬ ∀ book, run 3 (OrderBook.new 2)
    [.limitOrder 1 100 0x80000000 .sell, .limitOrder 2 100 0x80000000 .sell] = some book → VolumesExact book := by
  intro exact_
  have level : (run 3 (OrderBook.new 2)
      [.limitOrder 1 100 0x80000000 .sell, .limitOrder 2 100 0x80000000 .sell]).map (fun book =>
        (book.sellLimits.find? 100).map fun limit => (limit.totalVolume.toNat,
          ((book.pool.follow 2 limit.head).map fun node => (book.pool.pool node).qty.toNat).sum)) =
      some (some (0, 0x100000000)) := by decide +kernel
  obtain ⟨book, result, volume⟩ := Option.map_eq_some_iff.mp level
  obtain ⟨limit, found, sums⟩ := Option.map_eq_some_iff.mp volume
  have same := exact_ book result .sell 100 limit found
  obtain ⟨zero, wide⟩ := Prod.mk.inj sums
  rw [zero, wide] at same
  cases same

end KnowledgeAcquisition.Proof.HFT
