import KnowledgeAcquisition.Proof.RoCommLink.Tracker
import Mathlib.Data.List.Induction

/-!
# Runs of the command tracker

The log of a run says of every promise when its packet was sent and what it was set to; the transactions in the
table agree with it.
-/

namespace KnowledgeAcquisition.Proof.RoCommLink
open KnowledgeAcquisition.RoCommLink

namespace PromiseTracker
open KnowledgeAcquisition.RoCommLink.PromiseTracker

def history (log : List Entry) : List PromiseEvent := log.flatMap Entry.events

def Opened (log : List Entry) (promise : Nat) (seq : UInt16) (pkt : Packet) : Prop :=
  ∃ earlier entry later time, log = earlier ++ entry :: later ∧ entry.operation = .track time seq pkt ∧
    .tracked promise time pkt ∈ entry.events ∧ ∀ other ∈ later, ∀ result, other.operation ≠ .resolve seq result

def Late (tick : Nat) (earlier : List Entry) (promise time : Nat) : Prop :=
  ∃ last, (transmissions promise (history earlier)).getLast? = some last ∧ last + 500 * tick < time

/-- What an operation may do to promises, given the log before it. -/
structure Proper (tick : Nat) (earlier : List Entry) (entry : Entry) : Prop where
  single : ∀ promise, (concerning promise entry.events).length ≤ 1
  removal : ∀ promise, (∃ seq result, .settled promise seq result ∈ entry.events) ↔
    promise ∈ entry.before.map PromiseTransaction.promise ∧ promise ∉ entry.after.map PromiseTransaction.promise
  resolved : ∀ seq result, entry.operation = .resolve seq result → ∀ promise other set,
    .settled promise other set ∈ entry.events → set = result ∧ ∃ pkt, Opened earlier promise seq pkt
  retransmitted : ∀ promise time pkt, .retransmitted promise time pkt ∈ entry.events →
    entry.operation = .checkTimeouts time ∧ promise ∈ entry.after.map PromiseTransaction.promise ∧
      (∃ seq, Opened earlier promise seq pkt) ∧ (retransmissions promise (history earlier)).length < 3 ∧
      Late tick earlier promise time
  expired : ∀ time, entry.operation = .checkTimeouts time → ∀ promise seq set,
    .settled promise seq set ∈ entry.events →
      set = .failed ∧ (retransmissions promise (history earlier)).length = 3 ∧ Late tick earlier promise time
  thrown : entry.thrown ≠ none → ∃ now seq pkt, entry.operation = .track now seq pkt ∧
    seq ∈ entry.before.map PromiseTransaction.seq

/-- What the log says of a transaction in the table: how often its packet was sent again, and when it was last sent. -/
structure Recorded (events : List PromiseEvent) (transaction : PromiseTransaction) : Prop where
  retried : (retransmissions transaction.promise events).length = transaction.retries.toNat
  last : (transmissions transaction.promise events).getLast? = some transaction.lastSent

structure Consistent (timeline : Timeline) : Prop where
  sound : Sound timeline.tracker
  recorded : ∀ transaction ∈ timeline.tracker.transactions, Recorded (history timeline.log) transaction
  unsettled : ∀ transaction ∈ timeline.tracker.transactions,
    settlements transaction.promise (history timeline.log) = []
  opened : ∀ transaction ∈ timeline.tracker.transactions,
    Opened timeline.log transaction.promise transaction.seq transaction.packet
  unborn : ∀ promise, timeline.tracker.created ≤ promise → concerning promise (history timeline.log) = []
  once : ∀ promise, (settlements promise (history timeline.log)).length ≤ 1

variable {tick : Nat} {timeline : Timeline} {tracker : PromiseTracker} {next : PromiseTracker} {operation : Operation}
  {events : List PromiseEvent}

theorem history_snoc (log : List Entry) (entry : Entry) : history (log ++ [entry]) = history log ++ entry.events := by
  simp [history]

theorem consistent_new : Consistent {} where
  sound := sound_new
  recorded := by simp
  unsettled := by simp
  opened := by simp
  unborn _ _ := rfl
  once _ := Nat.zero_le 1

theorem Leaves.settled_source (leaves : Leaves tick tracker operation next events) {promise : Nat} {seq : UInt16}
    {result : CommandResult} (member : .settled promise seq result ∈ events) :
    ∃ transaction ∈ tracker.transactions, transaction.promise = promise ∧ transaction.seq = seq ∧
      (fate tick operation transaction).1 = none ∧
      (operation = .resolve seq result ∨
        ∃ now, operation = .checkTimeouts now ∧ Due tick now transaction ∧ ¬transaction.retries < maxRetries ∧
          result = .failed) := by
  rcases leaves.event_cases member with ⟨transaction, here, occurs⟩ | ⟨transaction, _, same⟩
  · refine ⟨transaction, here, ?_⟩
    rcases fate_cases tick operation transaction with
      fated | ⟨_, _, _, _, fated⟩ | ⟨_, resolves, fated⟩ | ⟨now, checks, due, done, fated⟩
    all_goals
      rw [fated] at occurs
      cases occurs
    · exact ⟨rfl, rfl, congrArg Prod.fst fated, Or.inl resolves⟩
    · exact ⟨rfl, rfl, congrArg Prod.fst fated, Or.inr ⟨now, checks, due, done, rfl⟩⟩
  · cases same

theorem Leaves.retransmitted_source (leaves : Leaves tick tracker operation next events) {promise time : Nat}
    {pkt : Packet} (member : .retransmitted promise time pkt ∈ events) :
    ∃ transaction ∈ tracker.transactions, transaction.promise = promise ∧ transaction.packet = pkt ∧
      (fate tick operation transaction).1.isSome ∧ operation = .checkTimeouts time ∧ Due tick time transaction ∧
      transaction.retries < maxRetries := by
  rcases leaves.event_cases member with ⟨transaction, here, occurs⟩ | ⟨transaction, _, same⟩
  · refine ⟨transaction, here, ?_⟩
    rcases fate_cases tick operation transaction with
      fated | ⟨now, checks, due, below, fated⟩ | ⟨_, _, fated⟩ | ⟨_, _, _, _, fated⟩
    all_goals
      rw [fated] at occurs
      cases occurs
    rw [fated]
    exact ⟨rfl, rfl, rfl, checks, due, below⟩
  · cases same

theorem Leaves.survives (leaves : Leaves tick tracker operation next events) {transaction later : PromiseTransaction}
    (member : transaction ∈ tracker.transactions) (survives : (fate tick operation transaction).1 = some later) :
    later ∈ next.transactions := by
  rw [leaves.transactions_eq]
  exact List.mem_append_left _ (List.mem_filterMap.mpr ⟨transaction, member, survives⟩)

theorem Leaves.stays_iff (sound : Sound tracker) (leaves : Leaves tick tracker operation next events)
    {transaction : PromiseTransaction} (member : transaction ∈ tracker.transactions) :
    transaction.promise ∈ next.transactions.map PromiseTransaction.promise ↔
      (fate tick operation transaction).1.isSome := by
  constructor
  · intro stays
    obtain ⟨later, here, same⟩ := List.mem_map.mp stays
    rcases leaves.member here with ⟨old, present, survives⟩ | arrives
    · have equal : old = transaction := by
        refine List.inj_on_of_nodup_map sound.promises present member ?_
        rw [← same, (fate_same survives).2.1]
      rw [← equal, survives]
      rfl
    · exact absurd same.symm (arrives.fresh sound member).2
  · intro survives
    obtain ⟨later, survives⟩ := Option.isSome_iff_exists.mp survives
    rw [← (fate_same survives).2.1]
    exact List.mem_map_of_mem (leaves.survives member survives)

theorem Leaves.removal_iff (sound : Sound tracker) (leaves : Leaves tick tracker operation next events) (promise : Nat) :
    (∃ seq result, .settled promise seq result ∈ events) ↔
      promise ∈ tracker.transactions.map PromiseTransaction.promise ∧
        promise ∉ next.transactions.map PromiseTransaction.promise := by
  constructor
  · rintro ⟨seq, result, member⟩
    obtain ⟨transaction, here, rfl, -, gone, -⟩ := leaves.settled_source member
    refine ⟨List.mem_map_of_mem here, ?_⟩
    rw [leaves.stays_iff sound here, gone]
    exact Bool.false_ne_true
  · rintro ⟨present, removed⟩
    obtain ⟨transaction, here, rfl⟩ := List.mem_map.mp present
    rw [leaves.stays_iff sound here] at removed
    rcases @settlements_fate tick operation transaction with ⟨-, stays⟩ | ⟨result, occurs, -⟩
    · exact absurd stays removed
    · refine ⟨transaction.seq, result, ?_⟩
      rw [leaves.events_eq]
      exact List.mem_append_left _ (List.mem_filterMap.mpr ⟨transaction, here, occurs⟩)

theorem Leaves.promise_cases (leaves : Leaves tick tracker operation next events) (promise : Nat) :
    (∃ transaction ∈ tracker.transactions, transaction.promise = promise) ∨
    (∃ transaction, Arrives tracker operation transaction ∧ transaction.promise = promise) ∨
      concerning promise events = [] := by
  by_cases present : ∃ transaction ∈ tracker.transactions, transaction.promise = promise
  · exact Or.inl present
  · by_cases new : ∃ transaction, Arrives tracker operation transaction ∧ transaction.promise = promise
    · exact Or.inr (Or.inl new)
    · push Not at present new
      exact Or.inr (Or.inr (leaves.concerning_other present new))

theorem Leaves.single (sound : Sound tracker) (leaves : Leaves tick tracker operation next events) (promise : Nat) :
    (concerning promise events).length ≤ 1 := by
  rcases leaves.promise_cases promise with ⟨transaction, here, rfl⟩ | ⟨transaction, arrives, rfl⟩ | silent
  · rw [leaves.concerning_tracked sound here]
    cases (fate tick operation transaction).2 <;> simp
  · rw [leaves.concerning_arrival sound arrives]
    exact Nat.le_refl 1
  · rw [silent]
    exact Nat.zero_le 1

theorem Consistent.late (consistent : Consistent timeline) {transaction : PromiseTransaction}
    (member : transaction ∈ timeline.tracker.transactions) {time : Nat} (due : Due tick time transaction) :
    Late tick timeline.log transaction.promise time := by
  refine ⟨transaction.lastSent, (consistent.recorded transaction member).last, ?_⟩
  have difference : time - transaction.lastSent > 500 * tick := due
  omega

theorem Leaves.proper (consistent : Consistent timeline)
    (leaves : Leaves tick timeline.tracker operation next events) {thrown : Option FutureErrc}
    (throws : thrown ≠ none → ∃ now seq pkt, operation = .track now seq pkt ∧
      seq ∈ timeline.tracker.transactions.map PromiseTransaction.seq) :
    Proper tick timeline.log
      { operation, before := timeline.tracker.transactions, after := next.transactions, events, thrown } where
  single := leaves.single consistent.sound
  removal := leaves.removal_iff consistent.sound
  resolved := by
    intro seq result resolves promise other set member
    obtain ⟨transaction, here, rfl, rfl, -, cause⟩ := leaves.settled_source member
    rcases cause with same | ⟨_, checks, _⟩
    · obtain ⟨rfl, rfl⟩ := Operation.resolve.inj (resolves.symm.trans same)
      exact ⟨rfl, transaction.packet, consistent.opened transaction here⟩
    · cases resolves.symm.trans checks
  retransmitted := by
    intro promise time pkt member
    obtain ⟨transaction, here, rfl, rfl, stays, checks, due, below⟩ := leaves.retransmitted_source member
    refine ⟨checks, (leaves.stays_iff consistent.sound here).mpr stays,
      ⟨transaction.seq, consistent.opened transaction here⟩, ?_, consistent.late here due⟩
    rw [(consistent.recorded transaction here).retried]
    exact UInt8.lt_iff_toNat_lt.mp below
  expired := by
    intro time checks promise seq set member
    obtain ⟨transaction, here, rfl, rfl, -, cause⟩ := leaves.settled_source member
    rcases cause with resolves | ⟨now, same, due, done, rfl⟩
    · cases checks.symm.trans resolves
    · obtain rfl := Operation.checkTimeouts.inj (checks.symm.trans same)
      refine ⟨rfl, ?_, consistent.late here due⟩
      have bounded := consistent.sound.bounded transaction here
      rw [UInt8.le_iff_toNat_le] at bounded
      rw [UInt8.lt_iff_toNat_lt] at done
      rw [(consistent.recorded transaction here).retried]
      exact Nat.le_antisymm bounded (Nat.le_of_not_lt done)
  thrown := throws

theorem Recorded.append {past : List PromiseEvent} {transaction : PromiseTransaction}
    (recorded : Recorded past transaction) (silent : concerning transaction.promise events = []) :
    Recorded (past ++ events) transaction := by
  obtain ⟨retried, last⟩ := recorded
  refine ⟨?_, ?_⟩
  · rw [retransmissions_append, List.length_append, retried, retransmissions, silent]
    rfl
  · have unsent : transmissions transaction.promise events = [] := by
      rw [transmissions, silent]
      rfl
    rw [transmissions_append, unsent, List.append_nil]
    exact last

theorem Leaves.recorded (sound : Sound tracker) (leaves : Leaves tick tracker operation next events)
    {past : List PromiseEvent} (recorded : ∀ transaction ∈ tracker.transactions, Recorded past transaction)
    (unborn : ∀ promise, tracker.created ≤ promise → concerning promise past = []) {transaction : PromiseTransaction}
    (member : transaction ∈ next.transactions) : Recorded (past ++ events) transaction := by
  rcases leaves.member member with ⟨old, here, survives⟩ | arrives
  · have before := recorded old here
    have now := leaves.concerning_tracked sound here
    rcases fate_cases tick operation old with
      fated | ⟨time, _, _, below, fated⟩ | ⟨_, _, fated⟩ | ⟨_, _, _, _, fated⟩
    all_goals
      rw [fated] at survives now
      cases survives
    · exact before.append now
    · refine ⟨?_, ?_⟩
      · rw [retransmissions_append, List.length_append, before.retried, retries_succ below]
        rw [retransmissions, now]
        rfl
      · rw [transmissions_append, transmissions, transmissions, now]
        exact List.getLast?_concat
  · have nothing := unborn transaction.promise (Nat.le_of_eq arrives.promise.symm)
    have now := leaves.concerning_arrival sound arrives
    refine ⟨?_, ?_⟩
    · rw [retransmissions_append, retransmissions, retransmissions, nothing, now, arrives.retries]
      rfl
    · rw [transmissions_append, transmissions, transmissions, nothing, now]
      rfl

theorem Opened.snoc {log : List Entry} {promise : Nat} {seq : UInt16} {pkt : Packet} {entry : Entry}
    (opened : Opened log promise seq pkt) (other : ∀ result, entry.operation ≠ .resolve seq result) :
    Opened (log ++ [entry]) promise seq pkt := by
  obtain ⟨earlier, origin, later, time, rfl, tracks, tracked, quiet⟩ := opened
  refine ⟨earlier, origin, later ++ [entry], time, by simp, tracks, tracked, ?_⟩
  intro candidate member
  rcases List.mem_append.mp member with before | now
  · exact quiet candidate before
  · obtain rfl := List.mem_singleton.mp now
    exact other

theorem Leaves.unsettled (consistent : Consistent timeline)
    (leaves : Leaves tick timeline.tracker operation next events) {transaction : PromiseTransaction}
    (member : transaction ∈ next.transactions) :
    settlements transaction.promise (history timeline.log ++ events) = [] := by
  rw [settlements_append, (leaves.pending consistent.sound member).1, List.append_nil]
  rcases leaves.member member with ⟨old, here, survives⟩ | arrives
  · rw [(fate_same survives).2.1]
    exact consistent.unsettled old here
  · rw [settlements, consistent.unborn transaction.promise (Nat.le_of_eq arrives.promise.symm)]
    rfl

theorem Leaves.opened (consistent : Consistent timeline)
    (leaves : Leaves tick timeline.tracker operation next events) {entry : Entry}
    (performs : entry.operation = operation) (does : entry.events = events) {transaction : PromiseTransaction}
    (member : transaction ∈ next.transactions) :
    Opened (timeline.log ++ [entry]) transaction.promise transaction.seq transaction.packet := by
  rcases leaves.member member with ⟨old, here, survives⟩ | arrives
  · obtain ⟨seq, promise, packet⟩ := fate_same survives
    rw [seq, promise, packet]
    refine (consistent.opened old here).snoc ?_
    intro result resolves
    rw [performs] at resolves
    rw [resolves, fate, if_pos rfl] at survives
    cases survives
  · have announces : announced transaction ∈ entry.events := by
      rw [does, leaves.events_eq]
      exact List.mem_append_right _ (List.mem_map_of_mem arrives.member)
    exact ⟨timeline.log, entry, [], transaction.lastSent, rfl, performs.trans arrives.tracks, announces, by simp⟩

theorem Leaves.once (consistent : Consistent timeline)
    (leaves : Leaves tick timeline.tracker operation next events) (promise : Nat) :
    (settlements promise (history timeline.log ++ events)).length ≤ 1 := by
  have single := Nat.le_trans (List.length_filterMap_le settledTo _) (leaves.single consistent.sound promise)
  rw [settlements_append, List.length_append]
  rcases leaves.promise_cases promise with ⟨transaction, here, rfl⟩ | ⟨transaction, arrives, rfl⟩ | silent
  · rw [consistent.unsettled transaction here, List.length_nil, Nat.zero_add]
    exact single
  · have unborn := consistent.unborn transaction.promise (Nat.le_of_eq arrives.promise.symm)
    rw [settlements, unborn, List.filterMap_nil, List.length_nil, Nat.zero_add]
    exact single
  · have unset : settlements promise events = [] := by
      rw [settlements, silent]
      rfl
    rw [unset]
    exact consistent.once promise

theorem Leaves.consistent (consistent : Consistent timeline)
    (leaves : Leaves tick timeline.tracker operation next events) (entry : Entry)
    (performs : entry.operation = operation) (does : entry.events = events) :
    Consistent { tracker := next, log := timeline.log ++ [entry] } := by
  have sound := consistent.sound
  have past : history (timeline.log ++ [entry]) = history timeline.log ++ events := by
    rw [history_snoc, does]
  refine ⟨leaves.sound sound, ?_, ?_, ?_, ?_, ?_⟩
  · intro transaction member
    rw [past]
    exact leaves.recorded sound consistent.recorded consistent.unborn member
  · intro transaction member
    rw [past]
    exact leaves.unsettled consistent member
  · intro transaction member
    exact leaves.opened consistent performs does member
  · intro promise unborn
    obtain ⟨later, untracked, absent⟩ := leaves.beyond sound unborn
    rw [past, concerning_append, consistent.unborn promise later, leaves.concerning_other untracked absent,
      List.append_nil]
  · intro promise
    rw [past]
    exact leaves.once consistent promise

/-! ## Runs -/

theorem step_consistent (consistent : Consistent timeline) (operation : Operation) :
    Consistent (step tick timeline operation) ∧
      ∃ entry, (step tick timeline operation).log = timeline.log ++ [entry] ∧ Proper tick timeline.log entry := by
  unfold step
  rcases exec_leaves consistent.sound operation with
    ⟨next, events, done, leaves⟩ | ⟨now, seq, pkt, it, tracks, found, thrown, leaves⟩
  · rw [done]
    exact ⟨leaves.consistent consistent _ rfl rfl, _, rfl, leaves.proper consistent (by simp)⟩
  · rw [thrown]
    refine ⟨leaves.consistent consistent _ rfl rfl, _, rfl, leaves.proper consistent ?_⟩
    intro _
    obtain ⟨member, rfl⟩ := find_member found
    exact ⟨now, it.seq, pkt, tracks, List.mem_map_of_mem member⟩

def Lifecycle (tick : Nat) (log : List Entry) : Prop :=
  ∀ earlier entry later, log = earlier ++ entry :: later → Proper tick earlier entry

theorem Lifecycle.snoc {log : List Entry} {entry : Entry} (lifecycle : Lifecycle tick log)
    (proper : Proper tick log entry) : Lifecycle tick (log ++ [entry]) := by
  intro earlier other later split
  rcases List.eq_nil_or_concat' later with rfl | ⟨rest, last, rfl⟩
  · obtain ⟨rfl, same⟩ := List.append_inj' split rfl
    obtain rfl := List.singleton_inj.mp same
    exact proper
  · rw [← List.cons_append, ← List.append_assoc] at split
    obtain ⟨rfl, -⟩ := List.append_inj' split rfl
    exact lifecycle earlier other rest rfl

theorem run_consistent (tick : Nat) (operations : List Operation) (consistent : Consistent timeline)
    (lifecycle : Lifecycle tick timeline.log) :
    Consistent (run tick timeline operations) ∧ Lifecycle tick (run tick timeline operations).log := by
  induction operations generalizing timeline with
  | nil => exact ⟨consistent, lifecycle⟩
  | cons operation operations ih =>
      obtain ⟨kept, entry, log, proper⟩ := @step_consistent tick timeline consistent operation
      refine ih kept ?_
      rw [log]
      exact lifecycle.snoc proper

def NoResolve (seq : UInt16) (operations : List Operation) : Prop := ∀ result, .resolve seq result ∉ operations

def valueOf (timeline : Timeline) (future : Nat) : Option CommandResult := (timeline.tracker.shared future).value

/-- As long as the future is not set, the next `resolve` sets it, and a `check_timeouts` that is late sends the packet
again or, after three times, sets it to `FAILED`. -/
structure Answers (tick : Nat) (timeline : Timeline) (future : Nat) (seq : UInt16) (pkt : Packet) : Prop where
  resolve : ∀ result, valueOf (step tick timeline (.resolve seq result)) future = some result
  retransmit : ∀ time, Late tick timeline.log future time →
    (retransmissions future (history timeline.log)).length < 3 →
      ∃ entry, (step tick timeline (.checkTimeouts time)).log = timeline.log ++ [entry] ∧
        .retransmitted future time pkt ∈ entry.events
  expire : ∀ time, Late tick timeline.log future time →
    3 ≤ (retransmissions future (history timeline.log)).length →
      valueOf (step tick timeline (.checkTimeouts time)) future = some .failed

/-- `track` returns a future that is set by the first `resolve` of its sequence number, or by a timeout before it. -/
def Serves (tick : Nat) (timeline : Timeline) (now : Nat) (seq : UInt16) (pkt : Packet) : Prop :=
  ∃ next future, timeline.tracker.track now seq pkt = .ok (next, future) ∧
    ∀ later, NoResolve seq later →
      let after := run tick timeline (.track now seq pkt :: later)
      valueOf after future = none ∧ Answers tick after future seq pkt ∨ valueOf after future = some .failed

def Held (tracker : PromiseTracker) (future : Nat) (seq : UInt16) (pkt : Packet) : Prop :=
  (∃ transaction ∈ tracker.transactions, transaction.promise = future ∧ transaction.seq = seq ∧
    transaction.packet = pkt) ∨
  (tracker.shared future).value = some .failed ∧ future < tracker.created ∧
    ∀ transaction ∈ tracker.transactions, transaction.promise ≠ future

theorem Leaves.value_settled (sound : Sound tracker) (leaves : Leaves tick tracker operation next events)
    {transaction : PromiseTransaction} (member : transaction ∈ tracker.transactions) {seq : UInt16}
    {result : CommandResult}
    (occurs : (fate tick operation transaction).2 = some (.settled transaction.promise seq result)) :
    (next.shared transaction.promise).value = some result := by
  rw [leaves.value, sound.pending transaction member, settlements, leaves.concerning_tracked sound member, occurs]
  rfl

theorem Leaves.held (sound : Sound tracker) (leaves : Leaves tick tracker operation next events) {future : Nat}
    {seq : UInt16} {pkt : Packet} (held : Held tracker future seq pkt)
    (other : ∀ result, operation ≠ .resolve seq result) : Held next future seq pkt := by
  rcases held with ⟨transaction, here, rfl, rfl, rfl⟩ | ⟨failed, old, gone⟩
  · cases survives : (fate tick operation transaction).1 with
    | some later =>
        obtain ⟨seq, promise, packet⟩ := fate_same survives
        exact Or.inl ⟨later, leaves.survives here survives, promise, seq, packet⟩
    | none =>
        have leaving := leaves.stays_iff sound here
        rw [survives] at leaving
        rcases fate_cases tick operation transaction with
          fated | ⟨_, _, _, _, fated⟩ | ⟨result, resolves, _⟩ | ⟨_, _, _, _, fated⟩
        · rw [fated] at survives
          cases survives
        · rw [fated] at survives
          cases survives
        · exact absurd resolves (other result)
        · refine Or.inr ⟨leaves.value_settled sound here (congrArg Prod.snd fated), ?_, ?_⟩
          · have smaller := sound.old transaction here
            rw [leaves.created_eq]
            omega
          · intro later member same
            have stays := leaving.mp (same ▸ List.mem_map_of_mem member)
            cases stays
  · refine Or.inr ⟨?_, ?_, ?_⟩
    · rw [leaves.value, failed]
      rfl
    · rw [leaves.created_eq]
      omega
    · intro later member
      rcases leaves.member member with ⟨before, present, survives⟩ | arrives
      · rw [(fate_same survives).2.1]
        exact gone before present
      · rw [arrives.promise]
        omega

theorem step_leaves (sound : Sound timeline.tracker) (operation : Operation) :
    ∃ entry, (step tick timeline operation).log = timeline.log ++ [entry] ∧
      Leaves tick timeline.tracker operation (step tick timeline operation).tracker entry.events := by
  unfold step
  rcases exec_leaves sound operation with ⟨next, events, done, leaves⟩ | ⟨_, _, _, _, _, _, thrown, leaves⟩
  · rw [done]
    exact ⟨_, rfl, leaves⟩
  · rw [thrown]
    exact ⟨_, rfl, leaves⟩

theorem run_held {future : Nat} {seq : UInt16} {pkt : Packet} {operations : List Operation}
    (consistent : Consistent timeline) (held : Held timeline.tracker future seq pkt)
    (quiet : NoResolve seq operations) :
    Consistent (run tick timeline operations) ∧ Held (run tick timeline operations).tracker future seq pkt := by
  induction operations generalizing timeline with
  | nil => exact ⟨consistent, held⟩
  | cons operation operations ih =>
      obtain ⟨entry, -, leaves⟩ := @step_leaves tick timeline consistent.sound operation
      refine ih (step_consistent consistent operation).1 ?_ ?_
      · refine leaves.held consistent.sound held ?_
        rintro result rfl
        exact quiet result List.mem_cons_self
      · intro result member
        exact quiet result (List.mem_cons_of_mem operation member)

theorem Consistent.answers (consistent : Consistent timeline) {transaction : PromiseTransaction}
    (member : transaction ∈ timeline.tracker.transactions) :
    Answers tick timeline transaction.promise transaction.seq transaction.packet := by
  have sound := consistent.sound
  have recorded := consistent.recorded transaction member
  have dueOf : ∀ time, Late tick timeline.log transaction.promise time → Due tick time transaction := by
    rintro time ⟨last, found, late⟩
    rw [recorded.last, Option.some.injEq] at found
    show time - transaction.lastSent > 500 * tick
    omega
  refine ⟨?_, ?_, ?_⟩
  · intro result
    obtain ⟨entry, -, leaves⟩ := @step_leaves tick timeline sound (.resolve transaction.seq result)
    have fated : (fate tick (.resolve transaction.seq result) transaction).2 =
        some (.settled transaction.promise transaction.seq result) := by
      rw [fate, if_pos rfl]
    exact leaves.value_settled sound member fated
  · intro time late few
    obtain ⟨entry, log, leaves⟩ := @step_leaves tick timeline sound (.checkTimeouts time)
    have below : transaction.retries < maxRetries := by
      rw [recorded.retried] at few
      exact UInt8.lt_iff_toNat_lt.mpr few
    have fated : (fate tick (.checkTimeouts time) transaction).2 =
        some (.retransmitted transaction.promise time transaction.packet) := by
      rw [fate, if_pos (dueOf time late), if_pos below]
    refine ⟨entry, log, ?_⟩
    rw [leaves.events_eq]
    exact List.mem_append_left _ (List.mem_filterMap.mpr ⟨transaction, member, fated⟩)
  · intro time late many
    obtain ⟨entry, -, leaves⟩ := @step_leaves tick timeline sound (.checkTimeouts time)
    have done : ¬transaction.retries < maxRetries := by
      rw [recorded.retried] at many
      rw [UInt8.lt_iff_toNat_lt]
      exact Nat.not_lt.mpr many
    have fated : (fate tick (.checkTimeouts time) transaction).2 =
        some (.settled transaction.promise transaction.seq .failed) := by
      rw [fate, if_pos (dueOf time late), if_neg done]
    exact leaves.value_settled sound member fated

theorem find_untracked_iff {seq : UInt16} :
    tracker.find seq = none ↔ seq ∉ tracker.transactions.map PromiseTransaction.seq := by
  constructor
  · intro absent present
    obtain ⟨transaction, member, same⟩ := List.mem_map.mp present
    exact find_missing absent transaction member same
  · intro absent
    cases found : tracker.find seq with
    | none => rfl
    | some it =>
        obtain ⟨member, rfl⟩ := find_member found
        exact absurd (List.mem_map_of_mem member) absent

theorem Consistent.serves_iff (consistent : Consistent timeline) (now : Nat) (seq : UInt16) (pkt : Packet) :
    Serves tick timeline now seq pkt ↔ seq ∉ timeline.tracker.transactions.map PromiseTransaction.seq := by
  have sound := consistent.sound
  rw [← find_untracked_iff]
  constructor
  · rintro ⟨next, future, tracked, -⟩
    cases found : timeline.tracker.find seq with
    | none => rfl
    | some it =>
        rw [track_throws sound found] at tracked
        cases tracked
  · intro absent
    obtain ⟨next, tracked, -⟩ := @track_leaves tick timeline.tracker sound now seq pkt absent
    refine ⟨next, timeline.tracker.created, tracked, ?_⟩
    intro later quiet
    obtain ⟨entry, -, leaves⟩ := @step_leaves tick timeline sound (.track now seq pkt)
    set transaction : PromiseTransaction :=
      { seq, packet := pkt, promise := timeline.tracker.created, lastSent := now }
    have arrives : transaction ∈ arrival timeline.tracker (.track now seq pkt) := by
      simp only [arrival, absent]
      exact List.mem_singleton_self _
    have held : Held (step tick timeline (.track now seq pkt)).tracker timeline.tracker.created seq pkt := by
      refine Or.inl ⟨transaction, ?_, rfl, rfl, rfl⟩
      rw [leaves.transactions_eq]
      exact List.mem_append_right _ arrives
    obtain ⟨kept, held⟩ := @run_held tick _ _ _ _ later (step_consistent consistent _).1 held quiet
    rcases held with ⟨waiting, member, promise, rfl, rfl⟩ | ⟨failed, -⟩
    · left
      rw [← promise]
      refine ⟨?_, kept.answers member⟩
      exact congrArg SharedState.value (kept.sound.pending waiting member)
    · right
      exact failed

theorem track_serves_iff (tick : Nat) (operations : List Operation) (now : Nat) (seq : UInt16) (pkt : Packet) :
    let timeline := run tick {} operations
    Serves tick timeline now seq pkt ↔ seq ∉ timeline.tracker.transactions.map PromiseTransaction.seq := by
  have empty : Lifecycle tick ({} : Timeline).log := by
    intro earlier entry later split
    simp at split
  exact (run_consistent tick operations consistent_new empty).1.serves_iff now seq pkt

/-- A second command with the sequence number that `pack_struct` gives to every packet. -/
theorem track_again_throws : ¬∀ operations now seq pkt, Serves 1000000 (run 1000000 {} operations) now seq pkt := by
  intro serves
  obtain ⟨next, future, tracked, -⟩ := serves [.track 0 0 { header := { magic := 0xAA } }] 1 0
    { header := { magic := 0xAA, msgId := 1 } }
  cases tracked

/-! ## The tracker without its promises -/

end PromiseTracker

end KnowledgeAcquisition.Proof.RoCommLink
