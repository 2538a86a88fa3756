import KnowledgeAcquisition.Proof.Sfd.Registry
import KnowledgeAcquisition.Sfd.Concurrent

/-!
# Concurrent reference counts

With descriptor numbers below `MaxSlots` every descriptor has a slot of its own, and a slot goes through four
phases. Two of them last from one atomic operation of a thread to its next one: the slot has been published
and has no count yet, or its count has gone and it is still published. A `fetch_add` that comes in between is
lost; without one, the counts are exact.
-/

namespace KnowledgeAcquisition.Proof.Sfd
open KnowledgeAcquisition.Sfd Library

variable {n : Nat}

def storing (i : Fin n) (thread : Thread n) : Nat :=
  match thread.pc with
  | .retainStore _ idx => if idx = i then 1 else 0
  | _ => 0

def retiring (i : Fin n) (thread : Thread n) : Nat :=
  match thread.pc with
  | .releaseStore _ idx => if idx = i then 1 else 0
  | _ => 0

/-- The slot of `fd`, the retains outstanding for it, and the threads that are storing and retiring it. -/
inductive Phase (fd : Int) : FileDescriptionRefCount → Nat → Nat → Nat → Prop
  | unused : Phase fd { fd := -1, count := 0 } 0 0 0
  | claimed : Phase fd { fd, count := 0 } 0 1 0
  | live {count : UInt64} (positive : 0 < count.toNat) : Phase fd { fd, count } count.toNat 0 0
  | retiring : Phase fd { fd, count := 0 } 1 0 1

theorem Phase.published {fd : Int} {slot : FileDescriptionRefCount} {outstanding storers retirers : Nat}
    (phase : Phase fd slot outstanding storers retirers) (used : slot.fd ≠ -1) : slot.fd = fd := by
  cases phase with
  | unused => exact absurd rfl used
  | claimed | live | retiring => rfl

inductive Placed (held : Int → Nat) : Pc n → Prop
  | idle : Placed held .idle
  | retainLoad (i : Fin n) : Placed held (.retainLoad i.val 0)
  | retainExchange (i : Fin n) : Placed held (.retainExchange i.val 0)
  | retainStore (i : Fin n) : Placed held (.retainStore i.val i)
  | retainAdd (i : Fin n) : Placed held (.retainAdd i.val i)
  | releaseLoad (i : Fin n) (positive : 0 < held i.val) : Placed held (.releaseLoad i.val 0)
  | releaseSub (i : Fin n) (positive : 0 < held i.val) : Placed held (.releaseSub i.val i)
  | releaseStore (i : Fin n) (positive : 0 < held i.val) : Placed held (.releaseStore i.val i)

structure Moves (i : Fin n) (registry : Registry n) (thread : Thread n) (outstanding storers retirers : Nat)
    (registry' : Registry n) (thread' : Thread n) : Prop where
  elsewhere : ∀ j, j ≠ i → registry' j = registry j
  placed : Placed thread'.held thread'.pc
  held : ∀ fd : Int, fd ≠ i.val → thread'.held fd = thread.held fd
  closed : ∀ fd : Int, fd ≠ i.val → thread'.closed fd = thread.closed fd
  storing : ∀ j, j ≠ i → storing j thread' = storing j thread
  retiring : ∀ j, j ≠ i → retiring j thread' = retiring j thread
  phase : ∀ outstanding' storers' retirers', outstanding' + thread.held i.val = outstanding + thread'.held i.val →
    storers' + Sfd.storing i thread = storers + Sfd.storing i thread' →
    retirers' + Sfd.retiring i thread = retirers + Sfd.retiring i thread' →
    Phase i.val (registry' i) outstanding' storers' retirers' ∧
      thread'.closed i.val = thread.closed i.val + if outstanding = 1 ∧ outstanding' = 0 then 1 else 0

def AddsToLive (registry : Registry n) : Pc n → Prop
  | .retainAdd _ idx => (registry idx).count ≠ 0 ∧ (registry idx).count + 1 ≠ 0
  | _ => True

instance (registry : Registry n) : (pc : Pc n) → Decidable (AddsToLive registry pc)
  | .retainAdd _ idx => inferInstanceAs (Decidable ((registry idx).count ≠ 0 ∧ (registry idx).count + 1 ≠ 0))
  | .idle | .retainLoad _ _ | .retainExchange _ _ | .retainStore _ _ | .releaseLoad _ _ | .releaseSub _ _
  | .releaseStore _ _ => inferInstanceAs (Decidable True)

theorem Moves.goto {i : Fin n} {registry : Registry n} {thread : Thread n} {outstanding storers retirers : Nat}
    (phase : Phase i.val (registry i) outstanding storers retirers) {pc : Pc n} (placed : Placed thread.held pc)
    (stores : ∀ j, Sfd.storing j { thread with pc } = Sfd.storing j thread)
    (retires : ∀ j, Sfd.retiring j { thread with pc } = Sfd.retiring j thread) :
    Moves i registry thread outstanding storers retirers registry { thread with pc } where
  elsewhere _ _ := rfl
  placed := placed
  held _ _ := rfl
  closed _ _ := rfl
  storing j _ := stores j
  retiring j _ := retires j
  phase := by
    intro outstanding' storers' retirers' out store retire
    rw [stores i] at store
    rw [retires i] at retire
    obtain rfl : outstanding' = outstanding := by simpa using out
    obtain rfl : storers' = storers := by simpa using store
    obtain rfl : retirers' = retirers := by simpa using retire
    refine ⟨phase, ?_⟩
    rw [if_neg (by omega), Nat.add_zero]

theorem Moves.returns {i : Fin n} {registry : Registry n} {slot : FileDescriptionRefCount} {thread : Thread n}
    {outstanding storers retirers : Nat} {held closed : Int → Nat}
    (heldElsewhere : ∀ fd : Int, fd ≠ i.val → held fd = thread.held fd)
    (closedElsewhere : ∀ fd : Int, fd ≠ i.val → closed fd = thread.closed fd)
    (stores : ∀ j, j ≠ i → Sfd.storing j thread = 0) (retires : ∀ j, j ≠ i → Sfd.retiring j thread = 0)
    (phase : ∀ outstanding' storers' retirers', outstanding' + thread.held i.val = outstanding + held i.val →
      storers' + Sfd.storing i thread = storers → retirers' + Sfd.retiring i thread = retirers →
      Phase i.val slot outstanding' storers' retirers' ∧
        closed i.val = thread.closed i.val + if outstanding = 1 ∧ outstanding' = 0 then 1 else 0) :
    Moves i registry thread outstanding storers retirers (Function.update registry i slot)
      { pc := .idle, held, closed } where
  elsewhere _ other := Function.update_of_ne other _ _
  placed := .idle
  held := heldElsewhere
  closed := closedElsewhere
  storing j other := (stores j other).symm
  retiring j other := (retires j other).symm
  phase := by
    rw [Function.update_self]
    exact phase

section
variable [NeZero n] {i : Fin n} {registry : Registry n} {held closed : Int → Nat} {outstanding storers retirers : Nat}

theorem retainLoad_moves (phase : Phase i.val (registry i) outstanding storers retirers) :
    Moves i registry { pc := .retainLoad i.val 0, held, closed } outstanding storers retirers
      (Thread.advance registry { pc := .retainLoad i.val 0, held, closed }).1
      (Thread.advance registry { pc := .retainLoad i.val 0, held, closed }).2 := by
  simp only [Thread.advance, slotAt_zero]
  by_cases published : (registry i).fd = i.val
  · rw [if_pos published]
    exact .goto phase (.retainAdd i) (fun _ => rfl) fun _ => rfl
  · have unused : (registry i).fd = -1 := by
      by_contra used
      exact published (phase.published used)
    rw [if_neg published, if_pos unused]
    exact .goto phase (.retainExchange i) (fun _ => rfl) fun _ => rfl

theorem retainExchange_moves (phase : Phase i.val (registry i) outstanding storers retirers) :
    Moves i registry { pc := .retainExchange i.val 0, held, closed } outstanding storers retirers
      (Thread.advance registry { pc := .retainExchange i.val 0, held, closed }).1
      (Thread.advance registry { pc := .retainExchange i.val 0, held, closed }).2 := by
  simp only [Thread.advance, slotAt_zero]
  by_cases unused : (registry i).fd = -1
  · rw [if_pos unused]
    refine ⟨fun j other => Function.update_of_ne other _ _, .retainStore i, fun _ _ => rfl, fun _ _ => rfl, ?_,
      fun _ _ => rfl, ?_⟩
    · intro j other
      simp [storing, Ne.symm other]
    · intro outstanding' storers' retirers' out store retire
      simp only [storing, retiring, if_true, Nat.add_zero] at out store retire
      generalize registry i = found at phase unused
      cases phase with
      | unused =>
          obtain rfl : outstanding' = 0 := by omega
          obtain rfl : storers' = 1 := by omega
          obtain rfl : retirers' = 0 := by omega
          simp only [Function.update_self]
          exact ⟨.claimed, rfl⟩
      | claimed | live | retiring =>
          simp only at unused
          omega
  · rw [if_neg unused, if_pos (phase.published unused)]
    exact .goto phase (.retainAdd i) (fun _ => rfl) fun _ => rfl

theorem retainStore_moves (phase : Phase i.val (registry i) outstanding storers retirers) :
    Moves i registry { pc := .retainStore i.val i, held, closed } outstanding storers retirers
      (Thread.advance registry { pc := .retainStore i.val i, held, closed }).1
      (Thread.advance registry { pc := .retainStore i.val i, held, closed }).2 := by
  simp only [Thread.advance, Thread.retained]
  apply Moves.returns (fun _ other => Function.update_of_ne other _ _) (fun _ _ => rfl) _ fun _ _ => rfl
  · intro outstanding' storers' retirers' out store retire
    simp only [storing, retiring, if_true, Nat.add_zero, Function.update_self] at out store retire
    generalize registry i = found at phase
    cases phase with
    | claimed =>
        obtain rfl : outstanding' = 1 := by omega
        obtain rfl : storers' = 0 := by omega
        obtain rfl : retirers' = 0 := by omega
        exact ⟨.live Nat.one_pos, rfl⟩
    | unused | live | retiring => omega
  · intro j other
    exact if_neg (Ne.symm other)

theorem retainAdd_moves (phase : Phase i.val (registry i) outstanding storers retirers)
    (counted : (registry i).count ≠ 0) (bounded : (registry i).count + 1 ≠ 0) :
    Moves i registry { pc := .retainAdd i.val i, held, closed } outstanding storers retirers
      (Thread.advance registry { pc := .retainAdd i.val i, held, closed }).1
      (Thread.advance registry { pc := .retainAdd i.val i, held, closed }).2 := by
  simp only [Thread.advance, Thread.retained, Registry.add]
  apply Moves.returns (fun _ other => Function.update_of_ne other _ _) (fun _ _ => rfl) (fun _ _ => rfl) fun _ _ => rfl
  intro outstanding' storers' retirers' out store retire
  simp only [storing, retiring, Nat.add_zero, Function.update_self] at out store retire
  generalize registry i = found at phase counted bounded
  cases phase with
  | live positive =>
      rename_i count
      have added : (count + 1).toNat = count.toNat + 1 := toNat_add_one bounded
      obtain rfl : outstanding' = (count + 1).toNat := by omega
      obtain rfl : storers' = 0 := by omega
      obtain rfl : retirers' = 0 := by omega
      have left : 0 < (count + 1).toNat := by omega
      refine ⟨.live left, ?_⟩
      rw [if_neg fun both => absurd both.2 (Nat.ne_of_gt left), Nat.add_zero]
  | unused | claimed | retiring => exact absurd rfl counted

theorem releaseLoad_moves (phase : Phase i.val (registry i) outstanding storers retirers) (positive : 0 < held i.val)
    (others : retirers + held i.val ≤ outstanding) :
    Moves i registry { pc := .releaseLoad i.val 0, held, closed } outstanding storers retirers
      (Thread.advance registry { pc := .releaseLoad i.val 0, held, closed }).1
      (Thread.advance registry { pc := .releaseLoad i.val 0, held, closed }).2 := by
  have published : (registry i).fd = i.val := by
    apply phase.published
    intro unused
    generalize registry i = found at phase unused
    cases phase with
    | unused => omega
    | claimed | live | retiring =>
        simp only at unused
        omega
  simp only [Thread.advance, slotAt_zero]
  rw [if_pos published]
  exact .goto phase (.releaseSub i positive) (fun _ => rfl) fun _ => rfl

theorem releaseSub_moves (phase : Phase i.val (registry i) outstanding storers retirers) (positive : 0 < held i.val)
    (others : retirers + held i.val ≤ outstanding) :
    Moves i registry { pc := .releaseSub i.val i, held, closed } outstanding storers retirers
      (Thread.advance registry { pc := .releaseSub i.val i, held, closed }).1
      (Thread.advance registry { pc := .releaseSub i.val i, held, closed }).2 := by
  simp only [Thread.advance, Thread.released]
  by_cases last : (registry i).count = 1
  · rw [if_pos last]
    refine ⟨fun j other => Function.update_of_ne other _ _, .releaseStore i positive, fun _ _ => rfl, fun _ _ => rfl,
      fun _ _ => rfl, ?_, ?_⟩
    · intro j other
      simp [retiring, Ne.symm other]
    · intro outstanding' storers' retirers' out store retire
      simp only [storing, retiring, if_true, Nat.add_zero] at out store retire
      generalize registry i = found at phase last
      cases phase with
      | live positive =>
          simp only at last
          subst last
          obtain rfl : outstanding' = 1 := by simpa using out
          obtain rfl : storers' = 0 := by omega
          obtain rfl : retirers' = 1 := by omega
          simp only [Function.update_self]
          exact ⟨.retiring, rfl⟩
      | unused | claimed | retiring => omega
  · rw [if_neg last]
    apply Moves.returns (fun _ other => Function.update_of_ne other _ _) (fun _ _ => rfl) (fun _ _ => rfl)
      fun _ _ => rfl
    intro outstanding' storers' retirers' out store retire
    simp only [storing, retiring, Nat.add_zero, Function.update_self] at out store retire
    generalize registry i = found at phase last
    cases phase with
    | live counted =>
        rename_i count
        have several : 1 < count.toNat := by
          rw [← UInt64.toNat_inj, UInt64.toNat_one] at last
          simp only at last
          omega
        have subtracted : (count - 1).toNat = count.toNat - 1 := toNat_sub_one counted
        obtain rfl : outstanding' = (count - 1).toNat := by omega
        obtain rfl : storers' = 0 := by omega
        obtain rfl : retirers' = 0 := by omega
        dsimp only
        refine ⟨.live (by omega), ?_⟩
        rw [if_neg (by omega), Nat.add_zero]
    | unused | claimed | retiring => omega

theorem releaseStore_moves (phase : Phase i.val (registry i) outstanding storers retirers) (positive : 0 < held i.val) :
    Moves i registry { pc := .releaseStore i.val i, held, closed } outstanding storers retirers
      (Thread.advance registry { pc := .releaseStore i.val i, held, closed }).1
      (Thread.advance registry { pc := .releaseStore i.val i, held, closed }).2 := by
  simp only [Thread.advance, Thread.released]
  apply Moves.returns (fun _ other => Function.update_of_ne other _ _) (fun _ other => Function.update_of_ne other _ _)
    fun _ _ => rfl
  · intro j other
    exact if_neg (Ne.symm other)
  · intro outstanding' storers' retirers' out store retire
    simp only [storing, retiring, if_true, Nat.add_zero, Function.update_self] at out store retire
    generalize registry i = found at phase
    cases phase with
    | retiring =>
        obtain rfl : outstanding' = 0 := by omega
        obtain rfl : storers' = 0 := by omega
        obtain rfl : retirers' = 0 := by omega
        simp only [Function.update_self, if_true, and_self]
        exact ⟨.unused, trivial⟩
    | unused | claimed | live => omega

end

theorem advance_moves [NeZero n] {registry : Registry n} {thread : Thread n} (placed : Placed thread.held thread.pc)
    (busy : thread.pc ≠ .idle) (adds : AddsToLive registry thread.pc) :
    ∃ i : Fin n, ∀ outstanding storers retirers, Phase i.val (registry i) outstanding storers retirers →
      retirers + thread.held i.val ≤ outstanding + retiring i thread →
      Moves i registry thread outstanding storers retirers (thread.advance registry).1 (thread.advance registry).2 := by
  obtain ⟨pc, held, closed⟩ := thread
  cases placed with
  | idle => exact absurd rfl busy
  | retainLoad i => exact ⟨i, fun _ _ _ phase _ => retainLoad_moves phase⟩
  | retainExchange i => exact ⟨i, fun _ _ _ phase _ => retainExchange_moves phase⟩
  | retainStore i => exact ⟨i, fun _ _ _ phase _ => retainStore_moves phase⟩
  | retainAdd i => exact ⟨i, fun _ _ _ phase _ => retainAdd_moves phase adds.1 adds.2⟩
  | releaseLoad i positive => exact ⟨i, fun _ _ _ phase others => releaseLoad_moves phase positive others⟩
  | releaseSub i positive => exact ⟨i, fun _ _ _ phase others => releaseSub_moves phase positive others⟩
  | releaseStore i positive => exact ⟨i, fun _ _ _ phase _ => releaseStore_moves phase positive⟩

theorem retiring_le_held {i : Fin n} {thread : Thread n} (placed : Placed thread.held thread.pc) :
    retiring i thread ≤ thread.held i.val := by
  obtain ⟨pc, held, closed⟩ := thread
  cases placed with
  | releaseStore j positive =>
      simp only [retiring]
      split
      · next same =>
        rw [← same]
        exact positive
      · exact Nat.zero_le _
  | _ => exact Nat.zero_le _

/-! ## All threads -/

variable {τ : Type} [Fintype τ]

structure Coherent (state : Threads n τ) : Prop where
  placed : ∀ t, Placed (state.threads t).held (state.threads t).pc
  below : ∀ t fd, 0 < (state.threads t).held fd → ∃ i : Fin n, fd = i.val
  phase : ∀ i : Fin n, Phase i.val (state.registry i) (state.outstanding i.val) (tally (storing i) state.threads)
    (tally (retiring i) state.threads)
  closed : ∀ fd, state.closed fd = state.falls fd

theorem Coherent.start : Coherent ({} : Threads n τ) where
  placed _ := .idle
  below _ _ positive := absurd positive (Nat.lt_irrefl 0)
  phase i := by
    have outstanding : Threads.outstanding ({} : Threads n τ) i.val = 0 := tally_eq_zero fun _ => rfl
    have storers : tally (storing i) ({} : Threads n τ).threads = 0 := tally_eq_zero fun _ => rfl
    have retirers : tally (retiring i) ({} : Threads n τ).threads = 0 := tally_eq_zero fun _ => rfl
    rw [outstanding, storers, retirers]
    exact .unused
  closed _ := tally_eq_zero fun _ => rfl

theorem Coherent.exact {state : Threads n τ} (coherent : Coherent state) (quiet : ∀ t, (state.threads t).pc = .idle) :
    Exact state.registry state.outstanding := by
  have settled (i : Fin n) : state.registry i = { fd := -1, count := 0 } ∧ state.outstanding i.val = 0 ∨
      (state.registry i).fd = i.val ∧ (state.registry i).count.toNat = state.outstanding i.val ∧
        0 < state.outstanding i.val := by
    have phase := coherent.phase i
    have storers : tally (storing i) state.threads = 0 := tally_eq_zero fun t => by simp only [storing, quiet t]
    have retirers : tally (retiring i) state.threads = 0 := tally_eq_zero fun t => by simp only [retiring, quiet t]
    rw [storers, retirers] at phase
    generalize state.registry i = slot, state.outstanding i.val = outstanding at phase
    cases phase with
    | unused => exact .inl ⟨rfl, rfl⟩
    | live positive => exact .inr ⟨rfl, rfl, positive⟩
  have own (i : Fin n) (used : (state.registry i).fd ≠ -1) : (state.registry i).fd = i.val ∧
      (state.registry i).count.toNat = state.outstanding i.val ∧ 0 < state.outstanding i.val := by
    obtain ⟨unused, -⟩ | live := settled i
    · exact absurd (congrArg FileDescriptionRefCount.fd unused) used
    · exact live
  have placed (fd : Int) (positive : 0 < state.outstanding fd) : ∃ i : Fin n, fd = i.val := by
    by_contra missing
    have none : state.outstanding fd = 0 := by
      apply tally_eq_zero
      intro t
      by_contra held
      exact missing (coherent.below t fd (Nat.pos_of_ne_zero held))
    omega
  refine ⟨?_, ?_, ?_, ?_, ?_⟩
  · intro fd positive
    obtain ⟨i, rfl⟩ := placed fd positive
    exact Int.natCast_nonneg _
  · intro i used
    rw [(own i used).1]
    exact (own i used).2.2
  · intro i used
    rw [(own i used).2.1, (own i used).1]
  · intro i j used equal
    have first := (own i used).1
    have second := (own j (equal ▸ used)).1
    apply Fin.ext
    omega
  · intro fd positive
    obtain ⟨i, rfl⟩ := placed fd positive
    obtain ⟨-, zero⟩ | live := settled i
    · omega
    · exact ⟨i, live.1⟩

variable [DecidableEq τ]

theorem Coherent.others {state : Threads n τ} (coherent : Coherent state) (t : τ) (i : Fin n) :
    tally (retiring i) state.threads + (state.threads t).held i.val ≤
      state.outstanding i.val + retiring i (state.threads t) := by
  have bound (other : τ) : retiring i (state.threads other) ≤ (state.threads other).held i.val :=
    retiring_le_held (coherent.placed other)
  exact @tally_add_le _ _ _ _ (retiring i) (fun thread => thread.held i.val) state.threads bound t

theorem Coherent.moves [NeZero n] {state : Threads n τ} (coherent : Coherent state) {t : τ} {i : Fin n}
    {registry : Registry n} {thread : Thread n}
    (moves : Moves i state.registry (state.threads t) (state.outstanding i.val) (tally (storing i) state.threads)
      (tally (retiring i) state.threads) registry thread) :
    Coherent (state.setThread t registry thread) := by
  have outstanding (fd : Int) := tally_update (fun thread => thread.held fd) state.threads t thread
  have closed (fd : Int) := tally_update (fun thread => thread.closed fd) state.threads t thread
  have storers (j : Fin n) := tally_update (storing j) state.threads t thread
  have retirers (j : Fin n) := tally_update (retiring j) state.threads t thread
  have after := moves.phase _ _ _ (outstanding i.val) (storers i) (retirers i)
  refine ⟨?_, ?_, ?_, ?_⟩
  · intro other
    by_cases same : other = t
    · subst same
      simp only [Threads.setThread, Function.update_self]
      exact moves.placed
    · simp only [Threads.setThread, Function.update_of_ne same]
      exact coherent.placed other
  · intro other fd positive
    by_cases same : other = t
    · subst same
      simp only [Threads.setThread, Function.update_self] at positive
      by_cases mine : fd = i.val
      · exact ⟨i, mine⟩
      · rw [moves.held fd mine] at positive
        exact coherent.below other fd positive
    · simp only [Threads.setThread, Function.update_of_ne same] at positive
      exact coherent.below other fd positive
  · intro j
    by_cases mine : j = i
    · rw [mine]
      exact after.1
    · have differs : (j.val : Int) ≠ i.val := fun equal => mine (Fin.ext (Int.ofNat.inj equal))
      have held := outstanding j.val
      have stores := storers j
      have retires := retirers j
      simp only [moves.held j.val differs, moves.storing j mine, moves.retiring j mine, Nat.add_right_cancel_iff]
        at held stores retires
      simp only [Threads.setThread, Threads.outstanding, moves.elsewhere j mine, held, stores, retires]
      exact coherent.phase j
  · intro fd
    have total := closed fd
    have before := coherent.closed fd
    simp only [Threads.closed] at before
    simp only [Threads.setThread, Threads.closed]
    by_cases mine : fd = i.val
    · subst mine
      have returned := after.2
      simp only [Threads.outstanding] at returned ⊢
      omega
    · have held := outstanding fd
      simp only [moves.held fd mine, moves.closed fd mine, Nat.add_right_cancel_iff] at held total
      simp only [Threads.outstanding, held]
      rw [total, before, if_neg (by omega), Nat.add_zero]

theorem Coherent.call [NeZero n] {state : Threads n τ} (coherent : Coherent state) {t : τ} (i : Fin n) {pc : Pc n}
    (free : (state.threads t).pc = .idle) (placed : Placed (state.threads t).held pc)
    (stores : ∀ j, storing j { state.threads t with pc } = 0)
    (retires : ∀ j, retiring j { state.threads t with pc } = 0) :
    Coherent (state.setThread t state.registry { state.threads t with pc }) := by
  apply coherent.moves (i := i)
  apply Moves.goto (coherent.phase i) placed
  · intro j
    rw [stores j]
    simp only [storing, free]
  · intro j
    rw [retires j]
    simp only [retiring, free]

/-- No `fetch_add` of `retain` meets a slot whose count is zero or about to wrap around. -/
def CountsLive (state : Threads n τ) : Threads.Action τ → Prop
  | .advance t => AddsToLive state.registry (state.threads t).pc
  | .retain _ _ | .release _ _ => True

instance (state : Threads n τ) : (action : Threads.Action τ) → Decidable (CountsLive state action)
  | .advance t => inferInstanceAs (Decidable (AddsToLive state.registry (state.threads t).pc))
  | .retain _ _ | .release _ _ => inferInstanceAs (Decidable True)

theorem step_coherent [NeZero n] {state state' : Threads n τ} {action : Threads.Action τ} (coherent : Coherent state)
    (live : CountsLive state action) (stepped : state.step action = some state') : Coherent state' := by
  cases action with
  | retain t fd =>
      simp only [Threads.step, Option.ite_none_right_eq_some] at stepped
      obtain ⟨⟨free, below⟩, stepped⟩ := stepped
      split at stepped
      · obtain rfl := Option.some.inj stepped
        exact coherent
      · next nonnegative =>
        obtain rfl := Option.some.inj stepped
        obtain ⟨i, rfl⟩ := exists_slot (not_lt.mp nonnegative) below
        exact coherent.call i free (.retainLoad i) (fun _ => rfl) fun _ => rfl
  | release t fd =>
      simp only [Threads.step, Option.ite_none_right_eq_some, Option.some.injEq] at stepped
      obtain ⟨⟨free, positive⟩, rfl⟩ := stepped
      obtain ⟨i, rfl⟩ := coherent.below t fd positive
      exact coherent.call i free (.releaseLoad i positive) (fun _ => rfl) fun _ => rfl
  | advance t =>
      simp only [Threads.step, Option.ite_none_left_eq_some, Option.some.injEq] at stepped
      obtain ⟨busy, rfl⟩ := stepped
      obtain ⟨i, moves⟩ := advance_moves (coherent.placed t) busy live
      exact coherent.moves (moves _ _ _ (coherent.phase i) (coherent.others t i))

theorem run_counts [NeZero n] {state : Threads n τ} {actions : List (Threads.Action τ)}
    (live : Trace.Meets Threads.step CountsLive ({} : Threads n τ) actions)
    (ran : Threads.run {} actions = some state) :
    ((∀ t, (state.threads t).pc = .idle) → ∀ fd, 0 ≤ fd → (state.registry.getCount fd).toNat = state.outstanding fd) ∧
      ∀ fd, state.closed fd = state.falls fd := by
  have coherent : Coherent state :=
    Trace.run_preserves (fun _ _ _ coherent live stepped => step_coherent coherent live stepped) Coherent.start live ran
  refine ⟨?_, coherent.closed⟩
  intro quiet fd nonnegative
  exact (coherent.exact quiet).getCount_eq nonnegative

theorem run_counts_two : ∃ state : Threads 2 Bool,
    Threads.run {} [.retain false 0, .retain true 0, .advance false, .advance true, .advance false, .advance false,
      .release false 0, .advance true, .advance false, .advance true, .advance false, .release true 0, .retain false 1,
      .advance true, .advance false, .advance true, .advance false, .advance true, .advance false] = some state ∧
      ((∀ fd, 0 ≤ fd → (state.registry.getCount fd).toNat = state.outstanding fd) ∧
        ∀ fd, state.closed fd = state.falls fd) ∧
      state.closed 0 = 1 ∧ state.outstanding 1 = 1 := by
  refine ⟨_, rfl, ?_, by decide, by decide⟩
  have live : Trace.Meets Threads.step CountsLive ({} : Threads 2 Bool) [.retain false 0, .retain true 0, .advance false,
    .advance true, .advance false, .advance false, .release false 0, .advance true, .advance false, .advance true,
    .advance false, .release true 0, .retain false 1, .advance true, .advance false, .advance true, .advance false,
    .advance true, .advance false] := by decide
  have counts := run_counts live rfl
  exact ⟨counts.1 (by decide), counts.2⟩

/-- The first thread has published the slot, the second one adds to it, and the first one stores its count. -/
theorem fetchAdd_lost : ∃ (actions : List (Threads.Action Bool)) (state : Threads 2 Bool),
    Threads.run {} actions = some state ∧ (∀ t, (state.threads t).pc = .idle) ∧
      (state.registry.getCount 0).toNat ≠ state.outstanding 0 :=
  ⟨[.retain false 0, .advance false, .advance false, .retain true 0, .advance true, .advance true, .advance false],
    _, rfl, by decide, by decide⟩

end KnowledgeAcquisition.Proof.Sfd
