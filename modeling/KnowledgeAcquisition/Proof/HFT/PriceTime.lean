import KnowledgeAcquisition.HFT.PriceTime
import Mathlib

/-!
# The trading rule

What the reference book does, stated without its recursion: which orders a sweep consumes, where an
order is entered, and how both act on a side that is stored level by level.
-/

namespace KnowledgeAcquisition.Proof.HFT
open KnowledgeAcquisition.HFT Library

def totalQty (orders : List Resting) : Nat := (orders.map (·.qty.toNat)).sum

/-- An incoming order of `qty` took orders off the front of `queue`, leaving `queue'`: whole orders,
then possibly a part of the next one, each at an acceptable price. -/
structure Sweeps (accepts : Price → Bool) (qty : Quantity) (queue : List Resting)
    (residual : Quantity) (queue' : List Resting) : Prop where
  priority : ∃ filled kept, queue = filled ++ kept ∧ (∀ order ∈ filled, accepts order.price = true) ∧
    ((queue' = kept ∧ qty.toNat = totalQty filled + residual.toNat) ∨
      ∃ order later taken, kept = order :: later ∧ accepts order.price = true ∧ 0 < taken ∧
        taken < order.qty ∧ queue' = { order with qty := order.qty - taken } :: later ∧
        qty.toNat = totalQty filled + taken.toNat ∧ residual = 0)
  exhaustive : residual ≠ 0 → ∀ order ∈ queue'.head?, accepts order.price = false

theorem fill_sweeps (accepts : Price → Bool) (qty : Quantity) (queue : List Resting) :
    Sweeps accepts qty queue (Reference.fill accepts qty queue).1 (Reference.fill accepts qty queue).2 := by
  induction queue generalizing qty with
  | nil => exact ⟨⟨[], [], rfl, by simp, Or.inl ⟨rfl, by simp [totalQty, Reference.fill]⟩⟩, by simp [Reference.fill]⟩
  | cons order queue ih =>
      unfold Reference.fill
      by_cases stop : qty = 0 ∨ accepts order.price = false
      · rw [if_pos stop]
        refine ⟨⟨[], order :: queue, rfl, by simp, Or.inl ⟨rfl, by simp [totalQty]⟩⟩, ?_⟩
        intro left first
        simp only [List.head?_cons, Option.mem_def, Option.some.injEq]
        rintro rfl
        exact stop.resolve_left left
      · rw [if_neg stop]
        obtain ⟨positive, accepted⟩ := not_or.mp stop
        have accepted : accepts order.price = true := by simpa using accepted
        by_cases whole : order.qty ≤ qty
        · rw [if_pos whole]
          obtain ⟨⟨filled, kept, split, prices, ends⟩, exhaustive⟩ := ih (qty - order.qty)
          have difference : (qty - order.qty).toNat = qty.toNat - order.qty.toNat :=
            UInt32.toNat_sub_of_le qty order.qty whole
          have bound : order.qty.toNat ≤ qty.toNat := UInt32.le_iff_toNat_le.mp whole
          have total : totalQty (order :: filled) = order.qty.toNat + totalQty filled := by
            simp [totalQty]
          refine ⟨⟨order :: filled, kept, by rw [split]; rfl, ?_, ?_⟩, exhaustive⟩
          · intro taken member
            rcases List.mem_cons.mp member with rfl | member
            · exact accepted
            · exact prices taken member
          · rw [total]
            rcases ends with ⟨same, sum⟩ | ⟨next, later, taken, h₁, h₂, h₃, h₄, h₅, sum, h₆⟩
            · exact Or.inl ⟨same, by omega⟩
            · exact Or.inr ⟨next, later, taken, h₁, h₂, h₃, h₄, h₅, by omega, h₆⟩
        · rw [if_neg whole]
          refine ⟨⟨[], order :: queue, rfl, by simp, Or.inr ⟨order, queue, qty, rfl, accepted, ?_, ?_, rfl, ?_, rfl⟩⟩,
            fun left => absurd rfl left⟩
          · grind
          · grind
          · simp [totalQty]

theorem fill_zero (accepts : Price → Bool) (queue : List Resting) :
    Reference.fill accepts 0 queue = (0, queue) := by
  cases queue with
  | nil => rfl
  | cons order queue => simp [Reference.fill]

theorem fill_whole {accepts : Price → Bool} {qty : Quantity} {order : Resting} {queue : List Resting}
    (pending : qty ≠ 0) (accepted : accepts order.price = true) (whole : order.qty ≤ qty) :
    Reference.fill accepts qty (order :: queue) = Reference.fill accepts (qty - order.qty) queue := by
  simp [Reference.fill, pending, accepted, whole]

theorem fill_part {accepts : Price → Bool} {qty : Quantity} {order : Resting} {queue : List Resting}
    (pending : qty ≠ 0) (accepted : accepts order.price = true) (part : qty < order.qty) :
    Reference.fill accepts qty (order :: queue) = (0, { order with qty := order.qty - qty } :: queue) := by
  have notWhole : ¬order.qty ≤ qty := by grind
  simp [Reference.fill, pending, accepted, notWhole]

theorem fill_ids {accepts : Price → Bool} {qty : Quantity} {queue : List Resting} {order : Resting}
    (member : order ∈ (Reference.fill accepts qty queue).2) : ∃ old ∈ queue, old.id = order.id := by
  obtain ⟨⟨filled, kept, split, -, ends⟩, -⟩ := fill_sweeps accepts qty queue
  rw [split]
  rcases ends with ⟨same, -⟩ | ⟨first, later, taken, kept, -, -, -, same, -, -⟩
  · rw [same] at member
    exact ⟨order, List.mem_append_right filled member, rfl⟩
  · rw [same] at member
    rw [kept]
    rcases List.mem_cons.mp member with rfl | member
    · exact ⟨first, by simp, rfl⟩
    · exact ⟨order, by simp [member], rfl⟩

@[simp] theorem side_setSide (book : Reference) (side : Side) (orders : List Resting) :
    (book.setSide side orders).side side = orders := by
  cases side <;> rfl

theorem side_setSide_other (book : Reference) {side s : Side} (orders : List Resting) (other : s ≠ side) :
    (book.setSide side orders).side s = book.side s := by
  cases side <;> cases s
  all_goals first | rfl | exact absurd rfl other

theorem place_skip {side : Side} {order : Resting} {better : List Resting} (queue : List Resting)
    (behind : ∀ other ∈ better, ¬before side order.price other.price) :
    Reference.place side order (better ++ queue) = better ++ Reference.place side order queue := by
  induction better with
  | nil => rfl
  | cons first better ih =>
      have here := behind first List.mem_cons_self
      simp only [List.cons_append, Reference.place, if_neg here]
      rw [ih fun other member => behind other (List.mem_cons_of_mem first member)]

theorem place_front {side : Side} {order : Resting} {worse : List Resting}
    (ahead : ∀ other ∈ worse, before side order.price other.price) :
    Reference.place side order worse = order :: worse := by
  cases worse with
  | nil => rfl
  | cons first worse => simp only [Reference.place, if_pos (ahead first List.mem_cons_self)]

theorem flatMap_update_absent {orders : Price → List Resting} {price : Price} {value : List Resting}
    {prices : List Price} (absent : price ∉ prices) :
    prices.flatMap (Function.update orders price value) = prices.flatMap orders := by
  rw [List.flatMap_def, List.flatMap_def]
  congr 1
  apply List.map_congr_left
  intro p member
  apply Function.update_of_ne
  rintro rfl
  exact absent member

theorem flatMap_filter_vacant {orders : Price → List Resting} {price : Price} (vacant : orders price = [])
    (prices : List Price) : (prices.filter (· ≠ price)).flatMap orders = prices.flatMap orders := by
  induction prices with
  | nil => rfl
  | cons p prices ih =>
      by_cases here : p = price
      · simpa [here, vacant] using ih
      · simpa [here] using ih

theorem mem_levels {orders : Price → List Resting} {prices : List Price}
    (priced : ∀ p, ∀ o ∈ orders p, o.price = p) {o : Resting} (member : o ∈ prices.flatMap orders) :
    o.price ∈ prices := by
  obtain ⟨p, inPrices, inLevel⟩ := List.mem_flatMap.mp member
  rw [priced p o inLevel]
  exact inPrices

theorem place_levels {side : Side} (order : Resting) {prices : List Price} {orders : Price → List Resting}
    (sorted : prices.Pairwise (before side)) (priced : ∀ p, ∀ o ∈ orders p, o.price = p)
    (vacant : order.price ∉ prices → orders order.price = []) :
    Reference.place side order (prices.flatMap orders) =
      (OrderedMap.insertKey (before side) order.price prices).flatMap
        (Function.update orders order.price (orders order.price ++ [order])) := by
  induction prices with
  | nil =>
      have none : orders order.price = [] := vacant List.not_mem_nil
      simp [OrderedMap.insertKey, Reference.place, none]
  | cons a prices ih =>
      have above : ∀ p ∈ prices, before side a p := fun p member => List.rel_of_pairwise_cons sorted member
      unfold OrderedMap.insertKey
      by_cases here : order.price = a
      · have absent : order.price ∉ prices := fun member =>
          OrderedMap.key_ne_of_lt (above _ member) here.symm
        have same : ∀ o ∈ orders a, ¬before side order.price o.price := by
          intro o member less
          rw [priced a o member, here] at less
          exact irrefl a less
        have ahead : ∀ o ∈ prices.flatMap orders, before side order.price o.price := fun o member =>
          here ▸ above _ (mem_levels priced member)
        rw [if_pos here, List.flatMap_cons, List.flatMap_cons, place_skip _ same, place_front ahead,
          flatMap_update_absent absent]
        simp [here]
      · rw [if_neg here]
        by_cases less : before side order.price a
        · rw [if_pos less]
          have outside : order.price ∉ a :: prices := by
            intro member
            rcases List.mem_cons.mp member with same | member
            · exact here same
            · exact asymm less (above _ member)
          have ahead : ∀ o ∈ (a :: prices).flatMap orders, before side order.price o.price := by
            intro o member
            rcases List.mem_cons.mp (mem_levels priced member) with same | later
            · rwa [same]
            · exact IsTrans.trans _ _ _ less (above _ later)
          rw [place_front ahead, List.flatMap_cons (x := order.price), flatMap_update_absent outside]
          simp [vacant outside]
        · rw [if_neg less]
          have behind : ∀ o ∈ orders a, ¬before side order.price o.price := by
            intro o member
            rwa [priced a o member]
          have rest := ih sorted.of_cons fun absent => vacant (by simp [here, absent])
          have other : a ≠ order.price := fun same => here same.symm
          rw [List.flatMap_cons, List.flatMap_cons, place_skip _ behind, rest, Function.update_of_ne other]

end KnowledgeAcquisition.Proof.HFT
