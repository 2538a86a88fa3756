import KnowledgeAcquisition.RoCommLink.TaskQueue
import Mathlib.Data.List.Induction
import Mathlib.Data.List.Nodup

/-!
# Tasks are taken once, in time and in order

One account is kept over all interleavings: the tasks accepted so far are those still queued and those
taken, each once. What it says was offered and taken is what the calls and the workers did.
-/

namespace KnowledgeAcquisition.Proof.RoCommLink
open KnowledgeAcquisition.RoCommLink Library

namespace TaskQueue
open KnowledgeAcquisition.RoCommLink.TaskQueue

variable {Func : Type} {queue next : TaskQueue Func}

def take (queue : TaskQueue Func) (worker top : Nat) (item : TaskItem Func) : TaskQueue Func :=
  { queue.enter worker (.running item) with
    tasks := queue.tasks.eraseIdx top
    taken := queue.taken ++ [{ task := item, worker, time := queue.clock, queued := queue.tasks }] }

inductive Effect (queue : TaskQueue Func) : TaskQueue Func → Prop where
  | tick (now : Int) : Effect queue { queue with clock := now }
  | offer (func : Func) (executeAt : Int) : Effect queue (queue.offer func executeAt)
  | shutdown : Effect queue queue.shutdown
  | move (worker : Nat) (phase : Phase Func) (stays : phase ≠ .returned) : Effect queue (queue.enter worker phase)
  | leave (worker : Nat) (stopped : queue.isShutdown = true) (empty : queue.tasks = []) :
      Effect queue (queue.enter worker .returned)
  | take (worker top : Nat) (item : TaskItem Func) (found : queue.tasks[top]? = some item)
      (least : IsTop queue.tasks item) (due : item.executeAt ≤ queue.clock) :
      Effect queue (take queue worker top item)

theorem pass_effect {worker top : Nat} (passed : queue.pass worker top = some next) : Effect queue next := by
  unfold TaskQueue.pass at passed
  split_ifs at passed with stopped empty
  · obtain rfl := Option.some.inj passed
    rw [Bool.and_eq_true, List.isEmpty_iff] at stopped
    exact .leave worker stopped.1 stopped.2
  · obtain rfl := Option.some.inj passed
    exact .move worker .waiting nofun
  · cases found : queue.tasks[top]? with
    | none =>
        rw [found] at passed
        cases passed
    | some item =>
        rw [found] at passed
        dsimp only at passed
        split_ifs at passed with least due
        · obtain rfl := Option.some.inj passed
          exact .take worker top item found least due
        · obtain rfl := Option.some.inj passed
          exact .move worker .waiting (by simp)

theorem step_effect {action : Action Func} (stepped : step queue action = some next) : Effect queue next := by
  cases action with
  | tick now =>
      simp only [step] at stepped
      split_ifs at stepped
      obtain rfl := Option.some.inj stepped
      exact .tick now
  | push f =>
      obtain rfl := Option.some.inj stepped
      exact .offer f queue.clock
  | pushDelayed f delay =>
      obtain rfl := Option.some.inj stepped
      exact .offer f (queue.clock + milliseconds delay)
  | shutdown =>
      obtain rfl := Option.some.inj stepped
      exact .shutdown
  | pass worker top =>
      simp only [step] at stepped
      split at stepped
      · exact pass_effect stepped
      · cases stepped
  | wake worker =>
      simp only [step] at stepped
      split at stepped
      · obtain rfl := Option.some.inj stepped
        exact .move worker .entering (by simp)
      · cases stepped
  | finish worker =>
      simp only [step] at stepped
      split at stepped
      · obtain rfl := Option.some.inj stepped
        exact .move worker .entering (by simp)
      · cases stepped

structure Accounts (queue : TaskQueue Func) : Prop where
  kept : queue.accepted.Perm (queue.tasks ++ queue.taken.map Taken.task)
  tickets : ((queue.accepted ++ queue.rejected).map TaskItem.ticket).Perm
    (List.range (queue.accepted.length + queue.rejected.length))
  due : ∀ entry ∈ queue.taken, entry.task.executeAt ≤ entry.time
  least : ∀ entry ∈ queue.taken, entry.task ∈ entry.queued ∧ IsTop entry.queued entry.task
  drained : Phase.returned ∈ queue.workers → queue.isShutdown = true ∧ queue.tasks = []

theorem accounts_new (threads : Nat) (clock : Int) : Accounts (new threads clock : TaskQueue Func) where
  kept := List.Perm.refl []
  tickets := List.Perm.refl []
  due := by simp [new]
  least := by simp [new]
  drained := by simp [new]

theorem tickets_offer {before after : List (TaskItem Func)} {count : Nat} (task : TaskItem Func)
    (tickets : (before.map TaskItem.ticket).Perm (List.range count)) (here : task.ticket = count)
    (added : after.Perm (before ++ [task])) : (after.map TaskItem.ticket).Perm (List.range (count + 1)) := by
  rw [List.range_succ, ← here]
  refine (added.map _).trans ?_
  rw [List.map_append, here]
  exact here ▸ tickets.append_right [task.ticket]

theorem Accounts.offer (accounts : Accounts queue) (func : Func) (executeAt : Int) :
    Accounts (queue.offer func executeAt) := by
  obtain ⟨kept, tickets, due, least, drained⟩ := accounts
  cases stopped : queue.isShutdown with
  | true =>
      rw [TaskQueue.offer, if_pos stopped]
      refine ⟨kept, ?_, due, least, drained⟩
      rw [List.length_append, ← Nat.add_assoc]
      refine tickets_offer ⟨queue.offered, func, executeAt⟩ tickets rfl ?_
      rw [List.append_assoc]
  | false =>
      rw [TaskQueue.offer, if_neg (by simp [stopped])]
      refine ⟨?_, ?_, due, least, ?_⟩
      · rw [List.append_assoc]
        refine (kept.append_right _).trans ?_
        rw [List.append_assoc]
        exact List.perm_append_comm.append_left _
      · rw [List.length_append, Nat.add_right_comm]
        refine tickets_offer ⟨queue.offered, func, executeAt⟩ tickets rfl ?_
        rw [List.append_assoc, List.append_assoc]
        exact List.perm_append_comm.append_left _
      · intro returned
        have done := (drained returned).1
        rw [stopped] at done
        cases done

theorem Accounts.enter (accounts : Accounts queue) (worker : Nat) (phase : Phase Func)
    (leaves : phase = .returned → queue.isShutdown = true ∧ queue.tasks = []) :
    Accounts (queue.enter worker phase) := by
  refine ⟨accounts.kept, accounts.tickets, accounts.due, accounts.least, ?_⟩
  intro returned
  rcases List.mem_or_eq_of_mem_set returned with before | now
  · exact accounts.drained before
  · exact leaves now.symm

theorem Accounts.take (accounts : Accounts queue) (worker : Nat) {top : Nat} {item : TaskItem Func}
    (found : queue.tasks[top]? = some item) (least : IsTop queue.tasks item) (due : item.executeAt ≤ queue.clock) :
    Accounts (take queue worker top item) := by
  have entered := accounts.enter worker (.running item) nofun
  obtain ⟨inside, here⟩ := List.getElem?_eq_some_iff.mp found
  have split : queue.tasks.Perm (item :: queue.tasks.eraseIdx top) := by
    rw [← here]
    exact (List.getElem_cons_eraseIdx_perm inside).symm
  refine ⟨?_, accounts.tickets, ?_, ?_, ?_⟩
  · refine accounts.kept.trans ?_
    rw [TaskQueue.take, List.map_append, ← List.append_assoc]
    refine (split.append_right _).trans ?_
    exact (List.perm_append_singleton item _).symm
  · intro entry member
    rcases List.mem_append.mp member with before | now
    · exact accounts.due entry before
    · obtain rfl := List.mem_singleton.mp now
      exact due
  · intro entry member
    rcases List.mem_append.mp member with before | now
    · exact accounts.least entry before
    · obtain rfl := List.mem_singleton.mp now
      exact ⟨List.mem_of_getElem? found, least⟩
  · intro returned
    have empty := (entered.drained returned).2
    rw [TaskQueue.enter] at empty
    rw [empty] at found
    cases found

theorem Accounts.step {action : Action Func} (accounts : Accounts queue) (stepped : step queue action = some next) :
    Accounts next := by
  cases step_effect stepped with
  | tick now => exact ⟨accounts.kept, accounts.tickets, accounts.due, accounts.least, accounts.drained⟩
  | offer func executeAt => exact accounts.offer func executeAt
  | shutdown =>
      unfold TaskQueue.shutdown
      split
      · exact accounts
      · refine ⟨accounts.kept, accounts.tickets, accounts.due, accounts.least, ?_⟩
        intro returned
        exact ⟨rfl, (accounts.drained returned).2⟩
  | move worker phase stays => exact accounts.enter worker phase fun gone => absurd gone stays
  | leave worker stopped empty => exact accounts.enter worker .returned fun _ => ⟨stopped, empty⟩
  | take worker top item found least due => exact accounts.take worker found least due

theorem step_workers {action : Action Func} (stepped : step queue action = some next) :
    next.workers.length = queue.workers.length := by
  cases step_effect stepped with
  | tick now => rfl
  | offer func executeAt =>
      unfold TaskQueue.offer
      split <;> rfl
  | shutdown =>
      unfold TaskQueue.shutdown
      split <;> rfl
  | move worker phase stays => exact List.length_set
  | leave worker stopped empty => exact List.length_set
  | take worker top item found least due => exact List.length_set

theorem run_workers {threads : Nat} {clock : Int} {actions : List (Action Func)}
    (ran : run (new threads clock) actions = some queue) : queue.workers.length = threads := by
  have keeps : ∀ (queue : TaskQueue Func) action next, queue.workers.length = threads →
      step queue action = some next → next.workers.length = threads :=
    fun _ _ _ before stepped => (step_workers stepped).trans before
  exact Trace.run_keeps keeps List.length_replicate ran

theorem run_accounts {threads : Nat} {clock : Int} {actions : List (Action Func)}
    (ran : run (new threads clock) actions = some queue) : Accounts queue :=
  Trace.run_keeps (fun _ _ _ accounts stepped => accounts.step stepped) (accounts_new threads clock) ran

/-- Accepted tasks are queued or taken, once; tasks are taken when due, earliest first; tasks turned away are not
taken; and no worker is gone before the shutdown and the last task. -/
structure ExactlyOnce (queue : TaskQueue Func) : Prop where
  once : ∀ task ∈ queue.accepted,
    ((queue.tasks ++ queue.taken.map Taken.task).map TaskItem.ticket).count task.ticket = 1
  known : ∀ task, task ∈ queue.tasks ++ queue.taken.map Taken.task → task ∈ queue.accepted
  due : ∀ entry ∈ queue.taken, entry.task.executeAt ≤ entry.time
  least : ∀ entry ∈ queue.taken, entry.task ∈ entry.queued ∧ IsTop entry.queued entry.task
  turnedAway : ∀ task ∈ queue.rejected, ∀ entry ∈ queue.taken, entry.task.ticket ≠ task.ticket
  returned : Phase.returned ∈ queue.workers → queue.isShutdown = true ∧ queue.tasks = []

theorem Accounts.exactlyOnce (accounts : Accounts queue) : ExactlyOnce queue := by
  have distinct : ((queue.accepted ++ queue.rejected).map TaskItem.ticket).Nodup :=
    accounts.tickets.nodup_iff.mpr List.nodup_range
  rw [List.map_append, List.nodup_append] at distinct
  have present : ∀ entry ∈ queue.taken, entry.task ∈ queue.accepted := fun entry member =>
    accounts.kept.mem_iff.mpr (List.mem_append_right _ (List.mem_map_of_mem member))
  refine ⟨?_, ?_, accounts.due, accounts.least, ?_, accounts.drained⟩
  · intro task member
    rw [← (accounts.kept.map TaskItem.ticket).count_eq]
    exact List.count_eq_one_of_mem distinct.1 (List.mem_map_of_mem member)
  · intro task member
    exact accounts.kept.mem_iff.mpr member
  · intro task refused entry member same
    exact distinct.2.2 _ (List.mem_map_of_mem (present entry member)) _ (List.mem_map_of_mem refused) same

/-! ## What the records stand for -/

def calls : Int → List (Action Func) → List (Func × Int)
  | _, [] => []
  | _, .tick now :: actions => calls now actions
  | clock, .push f :: actions => (f, clock) :: calls clock actions
  | clock, .pushDelayed f delay :: actions => (f, clock + 1000000 * delay) :: calls clock actions
  | clock, _ :: actions => calls clock actions

def numbered (first : Nat) (calls : List (Func × Int)) : List (TaskItem Func) :=
  (calls.zipIdx first).map fun (call, number) => { ticket := number, func := call.1, executeAt := call.2 }

def goesOn : Action Func → Bool
  | .shutdown => false
  | _ => true

def handed (queue next : TaskQueue Func) : Action Func → List (Taken Func)
  | .pass worker _ =>
      match next.workers[worker]? with
      | some (.running task) => [{ task, worker, time := queue.clock, queued := queue.tasks }]
      | _ => []
  | _ => []

def handedOut (queue : TaskQueue Func) : List (Action Func) → List (Taken Func)
  | [] => []
  | action :: actions =>
      match step queue action with
      | none => []
      | some next => handed queue next action ++ handedOut next actions

/-- Accepted are the calls before the first `shutdown`, turned away the later ones, and taken are the tasks that came into
the hands of a worker. -/
structure Recorded (threads : Nat) (clock : Int) (actions : List (Action Func)) (queue : TaskQueue Func) : Prop where
  accepted : queue.accepted = numbered 0 (calls clock (actions.takeWhile goesOn))
  offered : queue.accepted ++ queue.rejected = numbered 0 (calls clock actions)
  taken : queue.taken = handedOut (new threads clock) actions

theorem numbered_append (first : Nat) (earlier later : List (Func × Int)) :
    numbered first (earlier ++ later) = numbered first earlier ++ numbered (first + earlier.length) later := by
  simp [numbered, List.zipIdx_append]

theorem numbered_length (first : Nat) (made : List (Func × Int)) : (numbered first made).length = made.length := by
  simp [numbered]

theorem handedOut_append {actions : List (Action Func)} {last : Action Func} {first : TaskQueue Func}
    (ran : Trace.run step first actions = some queue) (stepped : step queue last = some next) :
    handedOut first (actions ++ [last]) = handedOut first actions ++ handed queue next last := by
  induction actions generalizing first with
  | nil =>
      obtain rfl := Option.some.inj ran
      simp [handedOut, stepped]
  | cons action actions ih =>
      rw [Trace.run_cons] at ran
      obtain ⟨second, here, ran⟩ := Option.bind_eq_some_iff.mp ran
      simp only [List.cons_append, handedOut, here, ih ran, List.append_assoc]

theorem handed_enter {worker top : Nat} (here : worker < queue.workers.length) {phase : Phase Func}
    (idle : ∀ task, phase ≠ .running task) : handed queue (queue.enter worker phase) (.pass worker top) = [] := by
  rw [handed, TaskQueue.enter, List.getElem?_set_self here]
  cases phase with
  | running task => exact absurd rfl (idle task)
  | _ => rfl

structure Records (queue next : TaskQueue Func) (action : Action Func) : Prop where
  taken : next.taken = queue.taken ++ handed queue next action
  accepted : next.accepted = queue.accepted ++
    if queue.isShutdown then [] else numbered queue.offered (calls queue.clock [action])
  rejected : next.rejected = queue.rejected ++
    if queue.isShutdown then numbered queue.offered (calls queue.clock [action]) else []
  flag : next.isShutdown = (queue.isShutdown || !goesOn action)
  clock : ∀ later, calls queue.clock (action :: later) = calls queue.clock [action] ++ calls next.clock later

theorem pass_records {worker top : Nat} (here : worker < queue.workers.length)
    (passed : queue.pass worker top = some next) : Records queue next (.pass worker top) := by
  have moved : ∀ {phase : Phase Func}, (∀ task, phase ≠ .running task) →
      Records queue (queue.enter worker phase) (.pass worker top) := by
    intro phase idle
    refine ⟨?_, ?_, ?_, ?_, fun later => rfl⟩
    · rw [handed_enter here idle, List.append_nil]
      rfl
    · simp [calls, numbered, TaskQueue.enter]
    · simp [calls, numbered, TaskQueue.enter]
    · simp [goesOn, TaskQueue.enter]
  unfold TaskQueue.pass at passed
  split_ifs at passed with stopped empty
  · obtain rfl := Option.some.inj passed
    exact moved (by simp)
  · obtain rfl := Option.some.inj passed
    exact moved (by simp)
  · cases found : queue.tasks[top]? with
    | none =>
        rw [found] at passed
        cases passed
    | some item =>
        rw [found] at passed
        dsimp only at passed
        split_ifs at passed with least due
        · obtain rfl := Option.some.inj passed
          refine ⟨?_, ?_, ?_, ?_, fun later => rfl⟩
          · simp [handed, TaskQueue.enter, List.getElem?_set_self here]
          · simp [calls, numbered, TaskQueue.enter]
          · simp [calls, numbered, TaskQueue.enter]
          · simp [goesOn, TaskQueue.enter]
        · obtain rfl := Option.some.inj passed
          exact moved (by simp)

theorem offer_records {func : Func} {executeAt : Int} {action : Action Func}
    (call : ∀ later, calls queue.clock (action :: later) = (func, executeAt) :: calls queue.clock later)
    (goes : goesOn action = true) (silent : ∀ next, handed queue next action = []) :
    Records queue (queue.offer func executeAt) action := by
  have one : calls queue.clock [action] = [(func, executeAt)] := call []
  unfold TaskQueue.offer
  cases stopped : queue.isShutdown with
  | true => 
      refine ⟨?_, ?_, ?_, ?_, ?_⟩
      · simp [silent]
      · simp [stopped]
      · simp [stopped, one, numbered]
      · simp [stopped]
      · intro later
        rw [one, call]
        rfl
  | false =>
      refine ⟨?_, ?_, ?_, ?_, ?_⟩
      · simp [silent]
      · simp [stopped, one, numbered]
      · simp [stopped]
      · simp [stopped, goes]
      · intro later
        rw [one, call]
        rfl

theorem step_records {action : Action Func} (stepped : step queue action = some next) : Records queue next action := by
  cases action with
  | tick now =>
      simp only [step] at stepped
      split_ifs at stepped
      obtain rfl := Option.some.inj stepped
      refine ⟨?_, ?_, ?_, ?_, fun later => rfl⟩ <;> simp [handed, calls, numbered, goesOn]
  | push f =>
      obtain rfl := Option.some.inj stepped
      exact offer_records (fun later => rfl) rfl fun next => rfl
  | pushDelayed f delay =>
      obtain rfl := Option.some.inj stepped
      refine offer_records (fun later => ?_) rfl fun next => rfl
      rw [calls, milliseconds, Int.mul_comm]
  | shutdown =>
      obtain rfl := Option.some.inj stepped
      unfold TaskQueue.shutdown
      cases stopped : queue.isShutdown with
      | true => refine ⟨?_, ?_, ?_, ?_, fun later => rfl⟩ <;> simp [handed, calls, numbered, stopped]
      | false => refine ⟨?_, ?_, ?_, ?_, fun later => rfl⟩ <;> simp [handed, calls, numbered, goesOn]
  | pass worker top =>
      simp only [step] at stepped
      split at stepped
      · rename_i entering
        exact pass_records (List.getElem?_eq_some_iff.mp entering).1 stepped
      · cases stepped
  | wake worker =>
      simp only [step] at stepped
      split at stepped
      · obtain rfl := Option.some.inj stepped
        refine ⟨?_, ?_, ?_, ?_, fun later => rfl⟩ <;> simp [handed, calls, numbered, goesOn, TaskQueue.enter]
      · cases stepped
  | finish worker =>
      simp only [step] at stepped
      split at stepped
      · obtain rfl := Option.some.inj stepped
        refine ⟨?_, ?_, ?_, ?_, fun later => rfl⟩ <;> simp [handed, calls, numbered, goesOn, TaskQueue.enter]
      · cases stepped

structure Follows (clock : Int) (actions : List (Action Func)) (queue : TaskQueue Func) : Prop where
  clock : ∀ later, calls clock (actions ++ later) = calls clock actions ++ calls queue.clock later
  going : queue.isShutdown = false → actions.takeWhile goesOn = actions ∧ queue.rejected = []
  stopped : queue.isShutdown = true → ∀ later, (actions ++ later).takeWhile goesOn = actions.takeWhile goesOn

theorem calls_of_stop {clock : Int} {last : Action Func} (stops : goesOn last = false) : calls clock [last] = [] := by
  cases last with
  | shutdown => rfl
  | _ => cases stops

namespace Follows

variable {clock : Int} {actions : List (Action Func)} {last : Action Func}

theorem takeWhile_append (follows : Follows clock actions queue) (going : queue.isShutdown = false)
    (later : List (Action Func)) : (actions ++ later).takeWhile goesOn = actions ++ later.takeWhile goesOn := by
  rw [List.takeWhile_append, if_pos (congrArg List.length (follows.going going).1)]

theorem takeWhile_stop (follows : Follows clock actions queue) (going : queue.isShutdown = false)
    (stops : goesOn last = false) (later : List (Action Func)) :
    (actions ++ ([last] ++ later)).takeWhile goesOn = actions := by
  rw [follows.takeWhile_append going, List.singleton_append, List.takeWhile_cons, if_neg (by simp [stops]),
    List.append_nil]

theorem offered_append {threads : Nat} (follows : Follows clock actions queue)
    (recorded : Recorded threads clock actions queue) :
    numbered 0 (calls clock (actions ++ [last])) =
      queue.accepted ++ queue.rejected ++ numbered queue.offered (calls queue.clock [last]) := by
  have count : queue.offered = (calls clock actions).length := by
    rw [TaskQueue.offered, ← List.length_append, recorded.offered, numbered_length]
  rw [follows.clock, numbered_append, recorded.offered, Nat.zero_add, count]

theorem step (follows : Follows clock actions queue) (records : Records queue next last) :
    Follows clock (actions ++ [last]) next := by
  have flag := records.flag
  constructor
  · intro later
    rw [List.append_assoc, List.singleton_append, follows.clock, records.clock, follows.clock, List.append_assoc]
  · intro going
    obtain ⟨goes, continues⟩ := Bool.or_eq_false_iff.mp (flag.symm.trans going)
    have rejects := records.rejected
    rw [goes, if_neg Bool.false_ne_true, (follows.going goes).2] at rejects
    refine ⟨?_, rejects⟩
    rw [follows.takeWhile_append goes, List.takeWhile_cons, if_pos (by simpa using continues), List.takeWhile_nil]
  · intro stopped later
    cases before : queue.isShutdown with
    | true => rw [List.append_assoc, follows.stopped before, follows.stopped before]
    | false =>
        rw [stopped, before, Bool.false_or] at flag
        have stops : goesOn last = false := by simpa using flag.symm
        rw [List.append_assoc, follows.takeWhile_stop before stops]
        exact (follows.takeWhile_stop before stops []).symm

end Follows

theorem Recorded.step {threads : Nat} {clock : Int} {actions : List (Action Func)} {last : Action Func}
    (recorded : Recorded threads clock actions queue) (follows : Follows clock actions queue)
    (records : Records queue next last)
    (hands : handedOut (new threads clock) (actions ++ [last]) =
      handedOut (new threads clock) actions ++ handed queue next last) :
    Recorded threads clock (actions ++ [last]) next := by
  have taken : next.taken = handedOut (new threads clock) (actions ++ [last]) := by
    rw [hands, records.taken, recorded.taken]
  have all := @Follows.offered_append _ queue clock actions last threads follows recorded
  have accepts := records.accepted
  have rejects := records.rejected
  cases stopped : queue.isShutdown with
  | true =>
      rw [stopped, if_pos rfl, List.append_nil] at accepts
      rw [stopped, if_pos rfl] at rejects
      refine ⟨?_, ?_, taken⟩
      · rw [accepts, recorded.accepted, follows.stopped stopped]
      · rw [accepts, rejects, all, List.append_assoc]
  | false =>
      rw [(follows.going stopped).2, List.append_nil] at all
      rw [stopped, if_neg Bool.false_ne_true] at accepts
      rw [stopped, if_neg Bool.false_ne_true, (follows.going stopped).2] at rejects
      refine ⟨?_, ?_, taken⟩
      · cases goes : goesOn last with
        | true =>
            rw [follows.takeWhile_append stopped, List.takeWhile_cons, if_pos goes, List.takeWhile_nil, all, accepts]
        | false =>
            have here : (actions ++ [last]).takeWhile goesOn = actions := follows.takeWhile_stop stopped goes []
            rw [here, accepts, calls_of_stop goes, recorded.accepted, (follows.going stopped).1]
            exact List.append_nil _
      · rw [rejects, List.append_nil, List.append_nil, all, accepts]

theorem run_recorded {threads : Nat} {clock : Int} {actions : List (Action Func)}
    (ran : run (new threads clock) actions = some queue) :
    Recorded threads clock actions queue ∧ Follows clock actions queue := by
  induction actions using List.reverseRecOn generalizing queue with
  | nil =>
      obtain rfl := Option.some.inj ran
      exact ⟨⟨rfl, rfl, rfl⟩, fun later => rfl, fun _ => ⟨rfl, rfl⟩, fun stopped => by cases stopped⟩
  | append_singleton actions last ih =>
      rw [run, Trace.run_append] at ran
      obtain ⟨before, earlier, ran⟩ := Option.bind_eq_some_iff.mp ran
      rw [Trace.run_cons] at ran
      obtain ⟨after, stepped, done⟩ := Option.bind_eq_some_iff.mp ran
      obtain rfl := Option.some.inj done
      obtain ⟨recorded, follows⟩ := ih earlier
      have records := step_records stepped
      exact ⟨recorded.step follows records (handedOut_append earlier stepped), follows.step records⟩

theorem run_exactlyOnce {threads : Nat} {clock : Int} {actions : List (Action Func)}
    (ran : run (new threads clock) actions = some queue) :
    ExactlyOnce queue ∧ Recorded threads clock actions queue ∧
      (1 ≤ threads → (∀ phase ∈ queue.workers, phase = .returned) →
        ∀ task ∈ queue.accepted, ((queue.taken.map Taken.task).map TaskItem.ticket).count task.ticket = 1) := by
  have account := (run_accounts ran).exactlyOnce
  refine ⟨account, (run_recorded ran).1, ?_⟩
  intro positive gone task member
  have some_worker : queue.workers ≠ [] := by
    rw [← List.length_pos_iff, run_workers ran]
    exact positive
  obtain ⟨phase, here⟩ := List.exists_mem_of_ne_nil _ some_worker
  have empty := (account.returned (gone phase here ▸ here)).2
  have once := account.once task member
  rwa [empty, List.nil_append] at once

theorem run_exactlyOnce_two :
    let actions := [.pushDelayed "C" 1500, .pass 0 0, .push "emergency", .pass 1 1, .shutdown, .push "late", .finish 1,
      .pass 1 0, .tick 1500000000, .wake 1, .pass 1 0, .wake 0, .pass 0 0, .finish 1, .pass 1 0]
    ∃ queue, run (new 2 0) actions = some queue ∧ ExactlyOnce queue ∧ Recorded 2 0 actions queue ∧
      queue.taken.map (fun entry => (entry.worker, entry.task.func)) = [(1, "emergency"), (1, "C")] ∧
      ∀ task ∈ queue.accepted, ((queue.taken.map Taken.task).map TaskItem.ticket).count task.ticket = 1 := by
  intro actions
  obtain ⟨queue, ran⟩ : ∃ queue, run (new 2 0) actions = some queue := ⟨_, rfl⟩
  have workers : (run (new 2 0) actions).map (fun queue => queue.workers) = some [.returned, .returned] := rfl
  have order : (run (new 2 0) actions).map (fun queue =>
      queue.taken.map fun entry => (entry.worker, entry.task.func)) = some [(1, "emergency"), (1, "C")] := rfl
  rw [ran, Option.map_some, Option.some.injEq] at workers order
  obtain ⟨account, recorded, drains⟩ := run_exactlyOnce ran
  refine ⟨queue, ran, account, recorded, order, drains (by decide) ?_⟩
  simp [workers]

end TaskQueue

end KnowledgeAcquisition.Proof.RoCommLink
