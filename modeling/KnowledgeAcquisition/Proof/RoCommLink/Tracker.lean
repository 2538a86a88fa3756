import KnowledgeAcquisition.RoCommLink.Tracker
import Mathlib.Data.List.Nodup
import Mathlib.Data.List.Basic

/-!
# The life of a promise

What an operation makes of one transaction is its fate; the table after an operation is the fates of the
table before it and, after a `track` of an unused sequence number, one transaction more.
-/

namespace KnowledgeAcquisition.Proof.RoCommLink
open KnowledgeAcquisition.RoCommLink

namespace PromiseTracker
open KnowledgeAcquisition.RoCommLink.PromiseTracker

def promiseOf : PromiseEvent → Nat
  | .tracked promise _ _ => promise
  | .retransmitted promise _ _ => promise
  | .settled promise _ _ => promise

def transmissionTime : PromiseEvent → Option Nat
  | .tracked _ time _ => some time
  | .retransmitted _ time _ => some time
  | .settled _ _ _ => none

def retransmissionTime : PromiseEvent → Option Nat
  | .retransmitted _ time _ => some time
  | _ => none

def settledTo : PromiseEvent → Option CommandResult
  | .settled _ _ result => some result
  | _ => none

def concerning (promise : Nat) (events : List PromiseEvent) : List PromiseEvent :=
  events.filter (promiseOf · = promise)

def transmissions (promise : Nat) (events : List PromiseEvent) : List Nat :=
  (concerning promise events).filterMap transmissionTime

def retransmissions (promise : Nat) (events : List PromiseEvent) : List Nat :=
  (concerning promise events).filterMap retransmissionTime

def settlements (promise : Nat) (events : List PromiseEvent) : List CommandResult :=
  (concerning promise events).filterMap settledTo

theorem concerning_append (promise : Nat) (events later : List PromiseEvent) :
    concerning promise (events ++ later) = concerning promise events ++ concerning promise later :=
  List.filter_append _ _

theorem transmissions_append (promise : Nat) (events later : List PromiseEvent) :
    transmissions promise (events ++ later) = transmissions promise events ++ transmissions promise later := by
  rw [transmissions, concerning_append, List.filterMap_append, transmissions, transmissions]

theorem retransmissions_append (promise : Nat) (events later : List PromiseEvent) :
    retransmissions promise (events ++ later) = retransmissions promise events ++ retransmissions promise later := by
  rw [retransmissions, concerning_append, List.filterMap_append, retransmissions, retransmissions]

theorem settlements_append (promise : Nat) (events later : List PromiseEvent) :
    settlements promise (events ++ later) = settlements promise events ++ settlements promise later := by
  rw [settlements, concerning_append, List.filterMap_append, settlements, settlements]

theorem settlements_self (promise : Nat) (seq : UInt16) (result : CommandResult) (events : List PromiseEvent) :
    settlements promise (.settled promise seq result :: events) = result :: settlements promise events := by
  simp [settlements, concerning, promiseOf, settledTo]

theorem settlements_other {promise : Nat} (event : PromiseEvent) (different : promiseOf event ≠ promise)
    (events : List PromiseEvent) : settlements promise (event :: events) = settlements promise events := by
  simp [settlements, concerning, different]

theorem settlements_sent {promise : Nat} (event : PromiseEvent) (silent : settledTo event = none)
    (events : List PromiseEvent) : settlements promise (event :: events) = settlements promise events := by
  by_cases here : promiseOf event = promise <;> simp [settlements, concerning, here, silent]

/-! ## One operation -/

def fate (tick : Nat) : Operation → PromiseTransaction → Option PromiseTransaction × Option PromiseEvent
  | .track _ _ _, transaction => (some transaction, none)
  | .resolve seq result, transaction =>
      if transaction.seq = seq then (none, some (.settled transaction.promise seq result)) else (some transaction, none)
  | .checkTimeouts now, transaction =>
      if Due tick now transaction then
        if transaction.retries < maxRetries then
          (some { transaction with retries := transaction.retries + 1, lastSent := now },
            some (.retransmitted transaction.promise now transaction.packet))
        else (none, some (.settled transaction.promise transaction.seq .failed))
      else (some transaction, none)

def survivors (tick : Nat) (operation : Operation) (transactions : List PromiseTransaction) : List PromiseTransaction :=
  transactions.filterMap fun transaction => (fate tick operation transaction).1

def happened (tick : Nat) (operation : Operation) (transactions : List PromiseTransaction) : List PromiseEvent :=
  transactions.filterMap fun transaction => (fate tick operation transaction).2

def arrival (tracker : PromiseTracker) : Operation → List PromiseTransaction
  | .track now seq pkt =>
      match tracker.find seq with
      | some _ => []
      | none => [{ seq, packet := pkt, promise := tracker.created, lastSent := now }]
  | _ => []

def announced (transaction : PromiseTransaction) : PromiseEvent :=
  .tracked transaction.promise transaction.lastSent transaction.packet

structure Sound (tracker : PromiseTracker) : Prop where
  seqs : (tracker.transactions.map PromiseTransaction.seq).Nodup
  promises : (tracker.transactions.map PromiseTransaction.promise).Nodup
  old : ∀ transaction ∈ tracker.transactions, transaction.promise < tracker.created
  pending : ∀ transaction ∈ tracker.transactions, tracker.shared transaction.promise = { retrieved := true }
  unused : ∀ promise, tracker.created ≤ promise → tracker.shared promise = {}
  bounded : ∀ transaction ∈ tracker.transactions, transaction.retries ≤ maxRetries

structure Leaves (tick : Nat) (tracker : PromiseTracker) (operation : Operation) (next : PromiseTracker)
    (events : List PromiseEvent) : Prop where
  transactions_eq : next.transactions = survivors tick operation tracker.transactions ++ arrival tracker operation
  events_eq : events = happened tick operation tracker.transactions ++ (arrival tracker operation).map announced
  created_eq : next.created = tracker.created + (arrival tracker operation).length
  value : ∀ promise, (next.shared promise).value =
    (tracker.shared promise).value.or (settlements promise events).head?
  retrieved : ∀ promise, (next.shared promise).retrieved = true ↔
    (tracker.shared promise).retrieved = true ∨ promise ∈ (arrival tracker operation).map PromiseTransaction.promise

variable {tick : Nat} {tracker : PromiseTracker}

theorem survivors_cons (operation : Operation) (transaction : PromiseTransaction) (rest : List PromiseTransaction) :
    survivors tick operation (transaction :: rest) =
      (fate tick operation transaction).1.toList ++ survivors tick operation rest := by
  rw [survivors, List.filterMap_cons, survivors]
  cases (fate tick operation transaction).1 <;> rfl

theorem happened_cons (operation : Operation) (transaction : PromiseTransaction) (rest : List PromiseTransaction) :
    happened tick operation (transaction :: rest) =
      (fate tick operation transaction).2.toList ++ happened tick operation rest := by
  rw [happened, List.filterMap_cons, happened]
  cases (fate tick operation transaction).2 <;> rfl

theorem ok_bind {α β : Type} (a : α) (next : α → Except FutureErrc β) : (Except.ok a >>= next) = next a := rfl

theorem setValue_pending {shared : Nat → SharedState} {promise : Nat} (pending : (shared promise).value = none)
    (result : CommandResult) :
    setValue shared promise result =
      .ok (Function.update shared promise { shared promise with value := some result }) := by
  simp only [setValue, pending]

/-- The loop of `check_timeouts` gives every transaction its fate and sets the promises of those that expire. -/
def Swept (tick now : Nat) (transactions : List PromiseTransaction) (shared : Nat → SharedState) : Prop :=
  ∃ left, sweep tick now shared transactions = .ok (left, survivors tick (.checkTimeouts now) transactions,
      happened tick (.checkTimeouts now) transactions) ∧
    ∀ promise, (left promise).retrieved = (shared promise).retrieved ∧ (left promise).value =
      (shared promise).value.or (settlements promise (happened tick (.checkTimeouts now) transactions)).head?

section Sweep

variable {now : Nat} {it : PromiseTransaction} {rest : List PromiseTransaction} {shared : Nat → SharedState}

theorem Swept.waiting (early : ¬Due tick now it) (swept : Swept tick now rest shared) :
    Swept tick now (it :: rest) shared := by
  have fated : fate tick (.checkTimeouts now) it = (some it, none) := by
    simp only [fate, if_neg early]
  obtain ⟨left, swept, values⟩ := swept
  unfold Swept
  rw [survivors_cons, happened_cons, fated, sweep, if_neg early, swept]
  exact ⟨left, rfl, values⟩

theorem Swept.retransmitted (due : Due tick now it) (below : it.retries < maxRetries)
    (swept : Swept tick now rest shared) : Swept tick now (it :: rest) shared := by
  have fated : fate tick (.checkTimeouts now) it = (some { it with retries := it.retries + 1, lastSent := now },
      some (.retransmitted it.promise now it.packet)) := by
    simp only [fate, if_pos due, if_pos below]
  obtain ⟨left, swept, values⟩ := swept
  unfold Swept
  rw [survivors_cons, happened_cons, fated, sweep, if_pos due, if_pos below, swept]
  refine ⟨left, rfl, ?_⟩
  intro promise
  rw [Option.toList_some, List.singleton_append, settlements_sent _ rfl]
  exact values promise

theorem Swept.expired (due : Due tick now it) (done : ¬it.retries < maxRetries)
    (pending : (shared it.promise).value = none)
    (swept : Swept tick now rest
      (Function.update shared it.promise { shared it.promise with value := some .failed })) :
    Swept tick now (it :: rest) shared := by
  have fated : fate tick (.checkTimeouts now) it = (none, some (.settled it.promise it.seq .failed)) := by
    simp only [fate, if_pos due, if_neg done]
  obtain ⟨left, swept, values⟩ := swept
  unfold Swept
  rw [survivors_cons, happened_cons, fated, sweep, if_pos due, if_neg done, setValue_pending pending, ok_bind, swept]
  refine ⟨left, rfl, ?_⟩
  intro promise
  rw [Option.toList_some, List.singleton_append]
  by_cases here : it.promise = promise
  · subst here
    simpa [settlements_self, pending] using values it.promise
  · rw [settlements_other (.settled it.promise it.seq .failed) here]
    simpa [Function.update_of_ne (Ne.symm here)] using values promise

end Sweep

theorem sweep_eq (now : Nat) (transactions : List PromiseTransaction) (shared : Nat → SharedState)
    (distinct : (transactions.map PromiseTransaction.promise).Nodup)
    (pending : ∀ transaction ∈ transactions, (shared transaction.promise).value = none) :
    Swept tick now transactions shared := by
  induction transactions generalizing shared with
  | nil =>
      refine ⟨shared, rfl, ?_⟩
      intro promise
      simp [happened, settlements, concerning]
  | cons it rest ih =>
      rw [List.map_cons, List.nodup_cons] at distinct
      have restPending : ∀ transaction ∈ rest, (shared transaction.promise).value = none := fun transaction member =>
        pending transaction (List.mem_cons_of_mem it member)
      by_cases due : Due tick now it
      · by_cases below : it.retries < maxRetries
        · exact (ih shared distinct.2 restPending).retransmitted due below
        · refine Swept.expired due below (pending it List.mem_cons_self) (ih _ distinct.2 ?_)
          intro transaction member
          have other : transaction.promise ≠ it.promise := fun same =>
            distinct.1 (same ▸ List.mem_map_of_mem member)
          rw [Function.update_of_ne other]
          exact restPending transaction member
      · exact (ih shared distinct.2 restPending).waiting due

theorem find_member {seq : UInt16} {it : PromiseTransaction} (found : tracker.find seq = some it) :
    it ∈ tracker.transactions ∧ it.seq = seq := by
  have here := List.find?_some found
  exact ⟨List.mem_of_find?_eq_some found, by simpa using here⟩

theorem find_missing {seq : UInt16} (absent : tracker.find seq = none) :
    ∀ transaction ∈ tracker.transactions, transaction.seq ≠ seq := by
  intro transaction member
  have missed := List.find?_eq_none.mp absent transaction member
  simpa using missed

theorem filterMap_only {α β κ : Type} {key : α → κ} {f : α → Option β} {xs : List α} (distinct : (xs.map key).Nodup)
    {x : α} (member : x ∈ xs) (others : ∀ y ∈ xs, key y ≠ key x → f y = none) : xs.filterMap f = (f x).toList := by
  obtain ⟨before, after, rfl⟩ := List.append_of_mem member
  rw [List.map_append, List.map_cons, List.nodup_append, List.nodup_cons] at distinct
  have earlier : before.filterMap f = [] := by
    refine List.filterMap_eq_nil_iff.mpr ?_
    intro y here
    refine others y (List.mem_append_left _ here) ?_
    exact distinct.2.2 (key y) (List.mem_map_of_mem here) (key x) List.mem_cons_self
  have later : after.filterMap f = [] := by
    refine List.filterMap_eq_nil_iff.mpr ?_
    intro y here
    refine others y (List.mem_append_right _ (List.mem_cons_of_mem x here)) ?_
    exact fun same => distinct.2.1.1 (same ▸ List.mem_map_of_mem here)
  rw [List.filterMap_append, List.filterMap_cons, earlier, later]
  cases f x <;> rfl

theorem survivors_track (now : Nat) (seq : UInt16) (pkt : Packet) (transactions : List PromiseTransaction) :
    survivors tick (.track now seq pkt) transactions = transactions := by
  simp [survivors, fate]

theorem happened_track (now : Nat) (seq : UInt16) (pkt : Packet) (transactions : List PromiseTransaction) :
    happened tick (.track now seq pkt) transactions = [] := by
  simp [happened, fate]

theorem track_leaves (sound : Sound tracker) (now : Nat) (seq : UInt16) (pkt : Packet)
    (absent : tracker.find seq = none) :
    ∃ next, tracker.track now seq pkt = .ok (next, tracker.created) ∧
      Leaves tick tracker (.track now seq pkt) next [.tracked tracker.created now pkt] := by
  have fresh : tracker.shared tracker.created = {} := sound.unused tracker.created (Nat.le_refl _)
  set transaction : PromiseTransaction := { seq, packet := pkt, promise := tracker.created, lastSent := now }
  have arrives : arrival tracker (.track now seq pkt) = [transaction] := by
    simp only [arrival, absent, transaction]
  have searched : PromiseTracker.find { tracker with created := tracker.created + 1 } seq = none := absent
  refine ⟨{ transactions := tracker.transactions ++ [transaction]
            shared := Function.update tracker.shared tracker.created { retrieved := true }
            created := tracker.created + 1 }, ?_, ?_⟩
  · simp only [track, emplace, searched, getFuture, fresh]
    rfl
  · refine ⟨?_, ?_, ?_, ?_, ?_⟩
    · rw [survivors_track, arrives]
    · rw [happened_track, arrives]
      rfl
    · rw [arrives, List.length_singleton]
    · intro promise
      rw [settlements_sent _ rfl]
      by_cases here : promise = tracker.created
      · subst here
        simp [fresh, settlements, concerning]
      · simp [Function.update_of_ne here, settlements, concerning]
    · intro promise
      rw [arrives]
      by_cases here : promise = tracker.created
      · subst here
        simp [transaction]
      · simp [transaction, here]

theorem track_throws (sound : Sound tracker) {seq : UInt16} {it : PromiseTransaction}
    (found : tracker.find seq = some it) (now : Nat) (pkt : Packet) :
    tracker.track now seq pkt = .error .futureAlreadyRetrieved := by
  have taken := sound.pending it (find_member found).1
  have searched : PromiseTracker.find { tracker with created := tracker.created + 1 } seq = some it := found
  simp only [track, emplace, searched, getFuture, taken]
  rfl

theorem survivors_resolve (seq : UInt16) (result : CommandResult) (transactions : List PromiseTransaction) :
    survivors tick (.resolve seq result) transactions = transactions.filter (·.seq ≠ seq) := by
  have guarded : (fun transaction => (fate tick (.resolve seq result) transaction).1) =
      Option.guard fun transaction : PromiseTransaction => decide (transaction.seq ≠ seq) := by
    funext transaction
    by_cases same : transaction.seq = seq <;> simp [fate, Option.guard, same]
  rw [survivors, guarded, List.filterMap_eq_filter]

theorem happened_resolve (sound : Sound tracker) {seq : UInt16} {it : PromiseTransaction}
    (member : it ∈ tracker.transactions) (here : it.seq = seq) (result : CommandResult) :
    happened tick (.resolve seq result) tracker.transactions = [.settled it.promise seq result] := by
  have others : ∀ transaction ∈ tracker.transactions, transaction.seq ≠ it.seq →
      (fate tick (.resolve seq result) transaction).2 = none := by
    intro transaction _ different
    rw [fate, if_neg (here ▸ different)]
  have fated : (fate tick (.resolve seq result) it).2 = some (.settled it.promise seq result) := by
    rw [fate, if_pos here]
  rw [happened, filterMap_only sound.seqs member others, fated]
  rfl

theorem happened_untracked {seq : UInt16} (absent : tracker.find seq = none) (result : CommandResult) :
    happened tick (.resolve seq result) tracker.transactions = [] := by
  refine List.filterMap_eq_nil_iff.mpr ?_
  intro transaction member
  rw [fate, if_neg (find_missing absent transaction member)]

theorem filter_untracked {seq : UInt16} (absent : tracker.find seq = none) :
    tracker.transactions.filter (·.seq ≠ seq) = tracker.transactions := by
  refine List.filter_eq_self.mpr ?_
  intro transaction member
  simpa using find_missing absent transaction member

theorem resolve_untracked (seq : UInt16) (result : CommandResult) (absent : tracker.find seq = none) :
    tracker.resolve seq result = .ok (tracker, []) ∧ Leaves tick tracker (.resolve seq result) tracker [] := by
  refine ⟨by simp only [resolve, absent], ?_, ?_, rfl, by simp [settlements, concerning], by simp [arrival]⟩
  · rw [survivors_resolve, filter_untracked absent]
    simp [arrival]
  · rw [happened_untracked absent]
    rfl

theorem resolve_tracked (sound : Sound tracker) {seq : UInt16} {it : PromiseTransaction}
    (found : tracker.find seq = some it) (result : CommandResult) :
    ∃ next, tracker.resolve seq result = .ok (next, [.settled it.promise seq result]) ∧
      Leaves tick tracker (.resolve seq result) next [.settled it.promise seq result] := by
  obtain ⟨member, here⟩ := find_member found
  have pending := sound.pending it member
  have settled := @setValue_pending tracker.shared it.promise (by rw [pending]) result
  refine ⟨{ tracker with
    transactions := tracker.transactions.filter (·.seq ≠ seq)
    shared := Function.update tracker.shared it.promise { tracker.shared it.promise with value := some result } },
    ?_, ?_, ?_, rfl, ?_, ?_⟩
  · simp only [resolve, found, settled]
    rfl
  · rw [survivors_resolve]
    simp [arrival]
  · rw [happened_resolve sound member here]
    rfl
  · intro promise
    by_cases same : it.promise = promise
    · subst same
      simp [settlements_self, pending]
    · rw [settlements_other (.settled it.promise seq result) same]
      simp [Function.update_of_ne (Ne.symm same), settlements, concerning]
  · intro promise
    by_cases same : it.promise = promise
    · subst same
      simp [arrival]
    · simp [Function.update_of_ne (Ne.symm same), arrival]

theorem checkTimeouts_leaves (sound : Sound tracker) (now : Nat) :
    ∃ next, tracker.checkTimeouts tick now = .ok (next, happened tick (.checkTimeouts now) tracker.transactions) ∧
      Leaves tick tracker (.checkTimeouts now) next (happened tick (.checkTimeouts now) tracker.transactions) := by
  have pending : ∀ transaction ∈ tracker.transactions, (tracker.shared transaction.promise).value = none := by
    intro transaction member
    rw [sound.pending transaction member]
  obtain ⟨shared, swept, values⟩ := @sweep_eq tick now tracker.transactions tracker.shared sound.promises pending
  refine ⟨{ tracker with shared, transactions := survivors tick (.checkTimeouts now) tracker.transactions },
    ?_, ?_, ?_, rfl, fun promise => (values promise).2, ?_⟩
  · rw [checkTimeouts, swept]
    rfl
  · simp [arrival]
  · simp [arrival]
  · intro promise
    rw [(values promise).1]
    simp [arrival]

theorem fate_cases (tick : Nat) (operation : Operation) (transaction : PromiseTransaction) :
    fate tick operation transaction = (some transaction, none) ∨
    (∃ now, operation = .checkTimeouts now ∧ Due tick now transaction ∧ transaction.retries < maxRetries ∧
      fate tick operation transaction = (some { transaction with retries := transaction.retries + 1, lastSent := now },
        some (.retransmitted transaction.promise now transaction.packet))) ∨
    (∃ result, operation = .resolve transaction.seq result ∧
      fate tick operation transaction = (none, some (.settled transaction.promise transaction.seq result))) ∨
    (∃ now, operation = .checkTimeouts now ∧ Due tick now transaction ∧ ¬transaction.retries < maxRetries ∧
      fate tick operation transaction = (none, some (.settled transaction.promise transaction.seq .failed))) := by
  cases operation with
  | track now seq pkt => exact Or.inl rfl
  | resolve seq result =>
      by_cases same : transaction.seq = seq
      · subst same
        exact Or.inr (Or.inr (Or.inl ⟨result, rfl, if_pos rfl⟩))
      · exact Or.inl (if_neg same)
  | checkTimeouts now =>
      by_cases due : Due tick now transaction
      · by_cases below : transaction.retries < maxRetries
        · refine Or.inr (Or.inl ⟨now, rfl, due, below, ?_⟩)
          simp only [fate, if_pos due, if_pos below]
        · refine Or.inr (Or.inr (Or.inr ⟨now, rfl, due, below, ?_⟩))
          simp only [fate, if_pos due, if_neg below]
      · exact Or.inl (if_neg due)

theorem fate_same {operation : Operation} {transaction next : PromiseTransaction}
    (survives : (fate tick operation transaction).1 = some next) :
    next.seq = transaction.seq ∧ next.promise = transaction.promise ∧ next.packet = transaction.packet := by
  rcases fate_cases tick operation transaction with
    fated | ⟨_, _, _, _, fated⟩ | ⟨_, _, fated⟩ | ⟨_, _, _, _, fated⟩
  all_goals
    rw [fated] at survives
    cases survives
  · exact ⟨rfl, rfl, rfl⟩
  · exact ⟨rfl, rfl, rfl⟩

theorem retries_succ {retries : UInt8} (below : retries < maxRetries) : (retries + 1).toNat = retries.toNat + 1 := by
  have bound : retries.toNat < 3 := UInt8.lt_iff_toNat_lt.mp below
  rw [UInt8.toNat_add, UInt8.toNat_one]
  omega

theorem fate_bounded {operation : Operation} {transaction next : PromiseTransaction}
    (bounded : transaction.retries ≤ maxRetries) (survives : (fate tick operation transaction).1 = some next) :
    next.retries ≤ maxRetries := by
  rcases fate_cases tick operation transaction with
    fated | ⟨_, _, _, below, fated⟩ | ⟨_, _, fated⟩ | ⟨_, _, _, _, fated⟩
  all_goals
    rw [fated] at survives
    cases survives
  · exact bounded
  · rw [UInt8.le_iff_toNat_le, retries_succ below]
    exact UInt8.lt_iff_toNat_lt.mp below

theorem fate_promise {operation : Operation} {transaction : PromiseTransaction} {event : PromiseEvent}
    (occurs : (fate tick operation transaction).2 = some event) : promiseOf event = transaction.promise := by
  rcases fate_cases tick operation transaction with
    fated | ⟨_, _, _, _, fated⟩ | ⟨_, _, fated⟩ | ⟨_, _, _, _, fated⟩
  all_goals
    rw [fated] at occurs
    cases occurs
  all_goals rfl

structure Arrives (tracker : PromiseTracker) (operation : Operation) (transaction : PromiseTransaction) : Prop where
  tracks : operation = .track transaction.lastSent transaction.seq transaction.packet
  absent : tracker.find transaction.seq = none
  promise : transaction.promise = tracker.created
  retries : transaction.retries = 0
  only : arrival tracker operation = [transaction]

theorem arrives_of_member {operation : Operation} {transaction : PromiseTransaction}
    (member : transaction ∈ arrival tracker operation) : Arrives tracker operation transaction := by
  cases operation with
  | track now seq pkt =>
      cases found : tracker.find seq with
      | some it => simp [arrival, found] at member
      | none =>
          have only : arrival tracker (.track now seq pkt) =
              [{ seq, packet := pkt, promise := tracker.created, lastSent := now }] := by
            simp only [arrival, found]
          rw [only, List.mem_singleton] at member
          subst member
          exact ⟨rfl, found, rfl, rfl, only⟩
  | resolve seq result => cases member
  | checkTimeouts now => cases member

theorem Arrives.member {operation : Operation} {transaction : PromiseTransaction}
    (arrives : Arrives tracker operation transaction) : transaction ∈ arrival tracker operation := by
  rw [arrives.only]
  exact List.mem_singleton_self transaction

theorem survivors_sublist {κ : Type} (key : PromiseTransaction → κ) (operation : Operation)
    (kept : ∀ transaction next, (fate tick operation transaction).1 = some next → key next = key transaction)
    (transactions : List PromiseTransaction) :
    ((survivors tick operation transactions).map key).Sublist (transactions.map key) := by
  induction transactions with
  | nil => exact List.Sublist.refl []
  | cons transaction rest ih =>
      rw [survivors_cons, List.map_append, List.map_cons]
      cases survives : (fate tick operation transaction).1 with
      | none => exact ih.cons _
      | some next =>
          rw [Option.toList_some, List.map_singleton, kept transaction next survives]
          exact ih.cons_cons _

variable {next : PromiseTracker} {operation : Operation} {events : List PromiseEvent}

theorem Leaves.member (leaves : Leaves tick tracker operation next events) {transaction : PromiseTransaction}
    (member : transaction ∈ next.transactions) :
    (∃ old ∈ tracker.transactions, (fate tick operation old).1 = some transaction) ∨
      Arrives tracker operation transaction := by
  rw [leaves.transactions_eq, List.mem_append] at member
  rcases member with survived | arrived
  · exact Or.inl (List.mem_filterMap.mp survived)
  · exact Or.inr (arrives_of_member arrived)

theorem Leaves.concerning_tracked (sound : Sound tracker) (leaves : Leaves tick tracker operation next events)
    {transaction : PromiseTransaction} (member : transaction ∈ tracker.transactions) :
    concerning transaction.promise events = (fate tick operation transaction).2.toList := by
  have arrived : concerning transaction.promise ((arrival tracker operation).map announced) = [] := by
    refine List.filter_eq_nil_iff.mpr ?_
    intro event here
    obtain ⟨new, arrives, rfl⟩ := List.mem_map.mp here
    have old := sound.old transaction member
    have promise : promiseOf (announced new) = tracker.created := (arrives_of_member arrives).promise
    simp [promise, Nat.ne_of_gt old]
  have others : ∀ other ∈ tracker.transactions, other.promise ≠ transaction.promise →
      ((fate tick operation other).2.filter (promiseOf · = transaction.promise)) = none := by
    intro other _ different
    cases occurs : (fate tick operation other).2 with
    | none => rfl
    | some event => simp [fate_promise occurs, different]
  have own : (fate tick operation transaction).2.filter (promiseOf · = transaction.promise) =
      (fate tick operation transaction).2 := by
    cases occurs : (fate tick operation transaction).2 with
    | none => rfl
    | some event => simp [fate_promise occurs]
  rw [leaves.events_eq, concerning_append, arrived, List.append_nil, concerning, happened, List.filter_filterMap,
    filterMap_only sound.promises member others, own]

theorem Leaves.event_cases (leaves : Leaves tick tracker operation next events) {event : PromiseEvent}
    (member : event ∈ events) :
    (∃ transaction ∈ tracker.transactions, (fate tick operation transaction).2 = some event) ∨
      ∃ transaction, Arrives tracker operation transaction ∧ event = announced transaction := by
  rw [leaves.events_eq, List.mem_append] at member
  rcases member with occurred | arrived
  · exact Or.inl (List.mem_filterMap.mp occurred)
  · obtain ⟨transaction, arrives, rfl⟩ := List.mem_map.mp arrived
    exact Or.inr ⟨transaction, arrives_of_member arrives, rfl⟩

theorem Leaves.concerning_other (leaves : Leaves tick tracker operation next events) {promise : Nat}
    (untracked : ∀ transaction ∈ tracker.transactions, transaction.promise ≠ promise)
    (absent : ∀ transaction, Arrives tracker operation transaction → transaction.promise ≠ promise) :
    concerning promise events = [] := by
  refine List.filter_eq_nil_iff.mpr ?_
  intro event member
  rcases leaves.event_cases member with ⟨transaction, here, occurs⟩ | ⟨transaction, arrives, rfl⟩
  · simpa [fate_promise occurs] using untracked transaction here
  · have other : promiseOf (announced transaction) ≠ promise := absent transaction arrives
    simpa using other

theorem Leaves.concerning_arrival (sound : Sound tracker) (leaves : Leaves tick tracker operation next events)
    {transaction : PromiseTransaction} (arrives : Arrives tracker operation transaction) :
    concerning transaction.promise events = [announced transaction] := by
  have before : concerning transaction.promise (happened tick operation tracker.transactions) = [] := by
    refine List.filter_eq_nil_iff.mpr ?_
    intro event member
    obtain ⟨old, here, occurs⟩ := List.mem_filterMap.mp member
    have smaller := sound.old old here
    simp [fate_promise occurs, arrives.promise, Nat.ne_of_lt smaller]
  rw [leaves.events_eq, concerning_append, before, arrives.only]
  simp [concerning, announced, promiseOf]

theorem settlements_fate {transaction : PromiseTransaction} :
    (fate tick operation transaction).2.toList.filterMap settledTo = [] ∧ (fate tick operation transaction).1.isSome ∨
    ∃ result, (fate tick operation transaction).2 = some (.settled transaction.promise transaction.seq result) ∧
      (fate tick operation transaction).1 = none := by
  rcases fate_cases tick operation transaction with
    fated | ⟨_, _, _, _, fated⟩ | ⟨result, _, fated⟩ | ⟨_, _, _, _, fated⟩
  all_goals rw [fated]
  · exact Or.inl ⟨rfl, rfl⟩
  · exact Or.inl ⟨rfl, rfl⟩
  · exact Or.inr ⟨result, rfl, rfl⟩
  · exact Or.inr ⟨.failed, rfl, rfl⟩

theorem Arrives.fresh (sound : Sound tracker) {transaction : PromiseTransaction}
    (arrives : Arrives tracker operation transaction) {old : PromiseTransaction} (member : old ∈ tracker.transactions) :
    old.seq ≠ transaction.seq ∧ old.promise ≠ transaction.promise := by
  have smaller := sound.old old member
  refine ⟨find_missing arrives.absent old member, ?_⟩
  rw [arrives.promise]
  exact Nat.ne_of_lt smaller

theorem Leaves.nodup {κ : Type} {key : PromiseTransaction → κ} (leaves : Leaves tick tracker operation next events)
    (kept : ∀ transaction next, (fate tick operation transaction).1 = some next → key next = key transaction)
    (distinct : (tracker.transactions.map key).Nodup)
    (fresh : ∀ transaction, Arrives tracker operation transaction →
      ∀ old ∈ tracker.transactions, key old ≠ key transaction) :
    (next.transactions.map key).Nodup := by
  have sublist := @survivors_sublist tick κ key operation kept tracker.transactions
  have one : ((arrival tracker operation).map key).Nodup := by
    cases arrived : arrival tracker operation with
    | nil => exact List.nodup_nil
    | cons transaction rest =>
        have only := (arrives_of_member (arrived ▸ List.mem_cons_self : transaction ∈ _)).only
        rw [← arrived, only]
        exact List.nodup_singleton _
  rw [leaves.transactions_eq, List.map_append, List.nodup_append]
  refine ⟨distinct.sublist sublist, one, ?_⟩
  intro left survived right arrived
  obtain ⟨old, member, rfl⟩ := List.mem_map.mp (sublist.subset survived)
  obtain ⟨transaction, arrives, rfl⟩ := List.mem_map.mp arrived
  exact fresh transaction (arrives_of_member arrives) old member

theorem sharedState_eq {state : SharedState} {taken : Bool} {set : Option CommandResult}
    (retrieved : state.retrieved = taken) (value : state.value = set) : state = ⟨taken, set⟩ := by
  subst retrieved value
  rfl

theorem Leaves.pending (sound : Sound tracker) (leaves : Leaves tick tracker operation next events)
    {transaction : PromiseTransaction} (member : transaction ∈ next.transactions) :
    settlements transaction.promise events = [] ∧ next.shared transaction.promise = { retrieved := true } := by
  have value := leaves.value transaction.promise
  have retrieved := leaves.retrieved transaction.promise
  rcases leaves.member member with ⟨old, here, survives⟩ | arrives
  · have same := (fate_same survives).2.1
    rw [same] at value retrieved ⊢
    have quiet : settlements old.promise events = [] := by
      rw [settlements, leaves.concerning_tracked sound here]
      rcases @settlements_fate tick operation old with ⟨quiet, -⟩ | ⟨_, _, gone⟩
      · exact quiet
      · rw [gone] at survives
        cases survives
    rw [sound.pending old here, quiet] at value
    rw [sound.pending old here] at retrieved
    exact ⟨quiet, sharedState_eq (retrieved.mpr (Or.inl rfl)) value⟩
  · have fresh := sound.unused transaction.promise (Nat.le_of_eq arrives.promise.symm)
    have quiet : settlements transaction.promise events = [] := by
      rw [settlements, leaves.concerning_arrival sound arrives]
      rfl
    rw [fresh, quiet] at value
    exact ⟨quiet, sharedState_eq (retrieved.mpr (Or.inr (List.mem_map_of_mem arrives.member))) value⟩

theorem Leaves.beyond (sound : Sound tracker) (leaves : Leaves tick tracker operation next events) {promise : Nat}
    (unborn : next.created ≤ promise) :
    tracker.created ≤ promise ∧ (∀ transaction ∈ tracker.transactions, transaction.promise ≠ promise) ∧
      ∀ transaction, Arrives tracker operation transaction → transaction.promise ≠ promise := by
  rw [leaves.created_eq] at unborn
  refine ⟨by omega, ?_, ?_⟩
  · intro transaction member
    have smaller := sound.old transaction member
    omega
  · intro transaction arrives
    have new := arrives.promise
    rw [arrives.only, List.length_singleton] at unborn
    omega

theorem Leaves.unused (sound : Sound tracker) (leaves : Leaves tick tracker operation next events) {promise : Nat}
    (unborn : next.created ≤ promise) : next.shared promise = {} := by
  obtain ⟨later, untracked, absent⟩ := leaves.beyond sound unborn
  have value := leaves.value promise
  have retrieved := leaves.retrieved promise
  have fresh := sound.unused promise later
  rw [fresh, settlements, leaves.concerning_other untracked absent] at value
  rw [fresh] at retrieved
  refine sharedState_eq (Bool.eq_false_iff.mpr ?_) value
  intro taken
  rcases retrieved.mp taken with never | arrived
  · cases never
  · obtain ⟨transaction, arrives, same⟩ := List.mem_map.mp arrived
    exact absent transaction (arrives_of_member arrives) same

theorem Leaves.sound (sound : Sound tracker) (leaves : Leaves tick tracker operation next events) : Sound next := by
  refine ⟨?_, ?_, ?_, ?_, ?_, ?_⟩
  · exact leaves.nodup (fun _ _ survives => (fate_same survives).1) sound.seqs
      fun _ arrives _ member => (arrives.fresh sound member).1
  · exact leaves.nodup (fun _ _ survives => (fate_same survives).2.1) sound.promises
      fun _ arrives _ member => (arrives.fresh sound member).2
  · intro transaction member
    rw [leaves.created_eq]
    rcases leaves.member member with ⟨old, here, survives⟩ | arrives
    · have smaller := sound.old old here
      rw [(fate_same survives).2.1]
      omega
    · rw [arrives.promise, arrives.only, List.length_singleton]
      exact Nat.lt_add_one _
  · intro transaction member
    exact (leaves.pending sound member).2
  · intro promise unborn
    exact leaves.unused sound unborn
  · intro transaction member
    rcases leaves.member member with ⟨old, here, survives⟩ | arrives
    · exact fate_bounded (sound.bounded old here) survives
    · rw [arrives.retries]
      decide

theorem exec_leaves (sound : Sound tracker) (operation : Operation) :
    (∃ next events, tracker.exec tick operation = .ok (next, events) ∧ Leaves tick tracker operation next events) ∨
    (∃ now seq pkt it, operation = .track now seq pkt ∧ tracker.find seq = some it ∧
      tracker.exec tick operation = .error .futureAlreadyRetrieved ∧ Leaves tick tracker operation tracker []) := by
  cases operation with
  | track now seq pkt =>
      cases found : tracker.find seq with
      | none =>
          obtain ⟨next, tracked, leaves⟩ := track_leaves sound now seq pkt found
          refine Or.inl ⟨next, _, ?_, leaves⟩
          rw [exec, tracked]
          rfl
      | some it =>
          have nothing : arrival tracker (.track now seq pkt) = [] := by
            simp only [arrival, found]
          refine Or.inr ⟨now, seq, pkt, it, rfl, found, ?_, ?_, ?_, ?_, ?_, ?_⟩
          · rw [exec, track_throws sound found]
            rfl
          · rw [survivors_track, nothing, List.append_nil]
          · rw [happened_track, nothing]
            rfl
          · rw [nothing]
            rfl
          · intro promise
            simp [settlements, concerning]
          · intro promise
            simp [nothing]
  | resolve seq result =>
      cases found : tracker.find seq with
      | none =>
          obtain ⟨resolved, leaves⟩ := @resolve_untracked tick tracker seq result found
          exact Or.inl ⟨tracker, [], resolved, leaves⟩
      | some it =>
          obtain ⟨next, resolved, leaves⟩ := resolve_tracked sound found result
          exact Or.inl ⟨next, _, resolved, leaves⟩
  | checkTimeouts now =>
      obtain ⟨next, checked, leaves⟩ := checkTimeouts_leaves sound now
      exact Or.inl ⟨next, _, checked, leaves⟩

theorem sound_new : Sound {} where
  seqs := List.nodup_nil
  promises := List.nodup_nil
  old := by simp
  pending := by simp
  unused _ _ := rfl
  bounded := by simp

end PromiseTracker

end KnowledgeAcquisition.Proof.RoCommLink
