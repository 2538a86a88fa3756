import KnowledgeAcquisition.Proof.RoCommLink.Frame
import KnowledgeAcquisition.RoCommLink.Workers
import Mathlib.Data.List.InsertIdx
import Mathlib.Data.List.Perm.Basic

/-!
# Interleaved byte loops

With one parser for an interface, delivery is exact in the runs where no byte is fed while another task
is part-way through its datagram.
-/

namespace KnowledgeAcquisition.Proof.RoCommLink
open KnowledgeAcquisition.RoCommLink RoCommLinkParser PacketSerializer Library

def OthersFresh (running : List RunningTask) (i : Nat) : Prop := ∀ other ∈ running.eraseIdx i, other.fed = 0

theorem othersFresh_iff {running : List RunningTask} {i : Nat} : OthersFresh running i ↔
    ∀ (j : Nat) (other : RunningTask), j ≠ i → running[j]? = some other → other.fed = 0 := by
  constructor
  · intro fresh j other apart found
    exact fresh other (List.mem_eraseIdx_iff_getElem?.mpr ⟨j, apart, found⟩)
  · intro fresh other member
    obtain ⟨j, apart, found⟩ := List.mem_eraseIdx_iff_getElem?.mp member
    exact fresh j other apart found

/-- A byte is fed only while no other task is part-way through its datagram. -/
def Serial (pool : Workers) : Workers.Action → Prop
  | .feed i => OthersFresh pool.running i
  | _ => True

instance (pool : Workers) : (action : Workers.Action) → Decidable (Serial pool action)
  | .feed i => inferInstanceAs (Decidable (∀ other ∈ pool.running.eraseIdx i, other.fed = 0))
  | .push _ _ => inferInstanceAs (Decidable True)
  | .take _ => inferInstanceAs (Decidable True)

structure Idle (parser : RoCommLinkParser) : Prop where
  state : parser.state = .waitStartOfTransmission
  noFilter : parser.earlyFilter = none

def FedBy (parser : RoCommLinkParser) (task : RunningTask) : Prop :=
  ∃ start, Idle start ∧ parser = (parse start (task.bytes.take task.fed)).1

theorem Idle.parse_frame {start : RoCommLinkParser} (idle : Idle start) (datagram : Datagram) :
    parse start datagram.bytes = (finished start datagram.packet,
      List.replicate (datagram.packet.payload.length + 11) processing ++
        [{ status := .complete, packet := some (received datagram.packet) }]) := by
  have passes : Passes start.earlyFilter datagram.packet.header.systemId := by
    rw [idle.noFilter]
    exact nofun
  exact RoCommLink.parse_frame idle.state datagram.magic passes datagram.short

theorem bytes_length (datagram : Datagram) : datagram.bytes.length = datagram.packet.payload.length + 12 :=
  serialize_length datagram.packet

section Feed

variable {start : RoCommLinkParser} {datagram : Datagram} {fed : Nat} {byte : UInt8}

theorem deliver_before (idle : Idle start) (here : datagram.bytes[fed]? = some byte)
    (more : fed + 1 < datagram.bytes.length) :
    Workers.deliver (parseByte (parse start (datagram.bytes.take fed)).1 byte).2 = [] := by
  have answer : (parse start datagram.bytes).2[fed]? =
      some (parseByte (parse start (datagram.bytes.take fed)).1 byte).2 := Transducer.feed_output here start
  rw [idle.parse_frame datagram] at answer
  rw [bytes_length] at more
  have early : fed < (List.replicate (datagram.packet.payload.length + 11) processing).length := by
    rw [List.length_replicate]
    omega
  rw [List.getElem?_append_left early, List.getElem?_replicate_of_lt (by omega)] at answer
  rw [← Option.some.inj answer]
  rfl

theorem deliver_last (idle : Idle start) (here : datagram.bytes[fed]? = some byte)
    (last : ¬fed + 1 < datagram.bytes.length) :
    Workers.deliver (parseByte (parse start (datagram.bytes.take fed)).1 byte).2 = [received datagram.packet] ∧
      Idle (parseByte (parse start (datagram.bytes.take fed)).1 byte).1 := by
  have inside : fed < datagram.bytes.length := (List.getElem?_eq_some_iff.mp here).1
  have position : fed = datagram.packet.payload.length + 11 := by
    rw [bytes_length] at last inside
    omega
  have answer : (parse start datagram.bytes).2[fed]? =
      some (parseByte (parse start (datagram.bytes.take fed)).1 byte).2 := Transducer.feed_output here start
  have final : (parse start (datagram.bytes.take (fed + 1))).1 =
      (parseByte (parse start (datagram.bytes.take fed)).1 byte).1 := Transducer.feed_take_succ here start
  rw [idle.parse_frame datagram] at answer
  rw [List.take_of_length_le (by omega), idle.parse_frame datagram] at final
  constructor
  · have at_ : (List.replicate (datagram.packet.payload.length + 11) processing ++
        [{ status := .complete, packet := some (received datagram.packet) }])[fed]? =
        some { status := .complete, packet := some (received datagram.packet) } := by
      rw [position, List.getElem?_append_right (by simp)]
      simp
    rw [at_] at answer
    rw [← Option.some.inj answer]
    rfl
  · rw [← final]
    exact ⟨rfl, idle.noFilter⟩

end Feed

structure Accounted (pool : Workers) (sent : List Datagram) (done queued running : List Datagram) : Prop where
  delivered : pool.delivered = done.map fun datagram => received datagram.packet
  tasks : pool.tasks.map (·.bytes) = queued.map (·.bytes)
  loops : pool.running.map (·.bytes) = running.map (·.bytes)
  balance : sent.Perm (done ++ queued ++ running)
  unfinished : ∀ task ∈ pool.running, task.fed < task.bytes.length
  parser : ((∀ task ∈ pool.running, task.fed = 0) ∧ Idle pool.parser) ∨
    ∃ (i : Nat) (task : RunningTask), pool.running[i]? = some task ∧ FedBy pool.parser task ∧
      OthersFresh pool.running i

section Steps

variable {pool next : Workers} {sent done queued running : List Datagram}

theorem Accounted.fedBy (accounted : Accounted pool sent done queued running) {i : Nat} {task : RunningTask}
    (found : pool.running[i]? = some task) (serial : Serial pool (.feed i)) : FedBy pool.parser task := by
  rcases accounted.parser with ⟨fresh, idle⟩ | ⟨j, other, foundOther, fedBy, others⟩
  · have none := fresh task (List.mem_of_getElem? found)
    exact ⟨pool.parser, idle, by rw [none]; rfl⟩
  · by_cases same : j = i
    · subst same
      rw [found] at foundOther
      obtain rfl := Option.some.inj foundOther
      exact fedBy
    · -- neither the task nor the one the parser was fed by has begun, so the parser is between frames
      obtain ⟨start, idle, parsed⟩ := fedBy
      rw [othersFresh_iff.mp serial j other same foundOther] at parsed
      refine ⟨start, idle, ?_⟩
      rw [othersFresh_iff.mp others i task (Ne.symm same) found]
      exact parsed

theorem Accounted.push (accounted : Accounted pool sent done queued running) (now : Nat) (datagram : Datagram) :
    Accounted { pool with tasks := pool.tasks ++ [{ executeAt := now, bytes := datagram.bytes }] }
      (sent ++ [datagram]) done (queued ++ [datagram]) running := by
  refine ⟨accounted.delivered, ?_, accounted.loops, ?_, accounted.unfinished, accounted.parser⟩
  · simp [accounted.tasks]
  · rw [List.perm_iff_count]
    intro other
    have before := accounted.balance.count_eq other
    simp only [List.count_append] at before ⊢
    omega

theorem map_getElem? {α : Type} {f : α → List UInt8} {items : List α} {datagrams : List Datagram}
    (same : items.map f = datagrams.map (·.bytes)) {i : Nat} {item : α} (found : items[i]? = some item) :
    ∃ datagram, datagrams[i]? = some datagram ∧ datagram.bytes = f item := by
  have at_ := congrArg (·[i]?) same
  simp only [List.getElem?_map, found, Option.map_some] at at_
  obtain ⟨datagram, here, bytes⟩ := Option.map_eq_some_iff.mp at_.symm
  exact ⟨datagram, here, bytes⟩

theorem count_eraseIdx {datagrams : List Datagram} {i : Nat} {datagram : Datagram}
    (found : datagrams[i]? = some datagram) (other : Datagram) :
    datagrams.count other = [datagram].count other + (datagrams.eraseIdx i).count other := by
  obtain ⟨bound, rfl⟩ := List.getElem?_eq_some_iff.mp found
  rw [← (List.getElem_cons_eraseIdx_perm bound).count_eq other, ← List.count_append]
  rfl

theorem Accounted.take (accounted : Accounted pool sent done queued running) {i : Nat} {item : TaskItem}
    (found : pool.tasks[i]? = some item) : ∃ queued' running', Accounted
      { pool with tasks := pool.tasks.eraseIdx i, running := pool.running ++ [{ bytes := item.bytes, fed := 0 }] }
      sent done queued' running' := by
  obtain ⟨datagram, here, bytes⟩ := map_getElem? accounted.tasks found
  refine ⟨queued.eraseIdx i, running ++ [datagram], accounted.delivered, ?_, ?_, ?_, ?_, ?_⟩
  · rw [← List.eraseIdx_map, ← List.eraseIdx_map, accounted.tasks]
  · simp [accounted.loops, bytes]
  · rw [List.perm_iff_count]
    intro other
    have before := accounted.balance.count_eq other
    have taken := count_eraseIdx here other
    simp only [List.count_append] at before ⊢
    omega
  · intro task member
    rcases List.mem_append.mp member with old | new
    · exact accounted.unfinished task old
    · rw [List.mem_singleton.mp new, ← bytes, bytes_length]
      exact Nat.zero_lt_succ _
  · rcases accounted.parser with ⟨fresh, idle⟩ | ⟨j, task, foundTask, fedBy, others⟩
    · refine Or.inl ⟨fun task member => ?_, idle⟩
      rcases List.mem_append.mp member with old | new
      · exact fresh task old
      · rw [List.mem_singleton.mp new]
    · have bound := (List.getElem?_eq_some_iff.mp foundTask).1
      refine Or.inr ⟨j, task, ?_, fedBy, othersFresh_iff.mpr fun k other apart found => ?_⟩
      · rw [List.getElem?_append_left bound]
        exact foundTask
      · by_cases old : k < pool.running.length
        · rw [List.getElem?_append_left old] at found
          exact othersFresh_iff.mp others k other apart found
        · rw [List.getElem?_append_right (by omega)] at found
          have new := List.mem_of_getElem? found
          rw [List.mem_singleton.mp new]

theorem Accounted.feedMore (accounted : Accounted pool sent done queued running) {i : Nat} {task : RunningTask}
    {byte : UInt8} (found : pool.running[i]? = some task) (here : task.bytes[task.fed]? = some byte)
    (serial : Serial pool (.feed i)) (more : task.fed + 1 < task.bytes.length) : Accounted
      { pool with
        parser := (pool.parser.parseByte byte).1
        running := pool.running.set i { task with fed := task.fed + 1 }
        delivered := pool.delivered ++ Workers.deliver (pool.parser.parseByte byte).2 }
      sent done queued running := by
  obtain ⟨datagram, -, bytes⟩ := map_getElem? accounted.loops found
  obtain ⟨start, idle, parsed⟩ := accounted.fedBy found serial
  have bound := (List.getElem?_eq_some_iff.mp found).1
  have silent : Workers.deliver (pool.parser.parseByte byte).2 = [] := by
    rw [parsed, ← bytes]
    exact deliver_before idle (bytes ▸ here) (bytes ▸ more)
  refine ⟨?_, accounted.tasks, ?_, accounted.balance, ?_, ?_⟩
  · simp only [silent, List.append_nil]
    exact accounted.delivered
  · rw [← accounted.loops, List.map_set]
    apply List.ext_getElem?
    intro j
    by_cases same : i = j
    · subst same
      rw [List.getElem?_set_self (by simpa using bound), List.getElem?_map, found]
      rfl
    · rw [List.getElem?_set_ne same]
  · intro other member
    rcases List.mem_or_eq_of_mem_set member with old | rfl
    · exact accounted.unfinished other old
    · exact more
  · refine Or.inr ⟨i, { task with fed := task.fed + 1 }, ?_, ?_, othersFresh_iff.mpr ?_⟩
    · rw [List.getElem?_set_self bound]
    · refine ⟨start, idle, ?_⟩
      rw [parsed]
      exact (Transducer.feed_take_succ here start).symm
    · intro j other apart foundOther
      rw [List.getElem?_set_ne (Ne.symm apart)] at foundOther
      exact othersFresh_iff.mp serial j other apart foundOther

theorem Accounted.feedLast (accounted : Accounted pool sent done queued running) {i : Nat} {task : RunningTask}
    {byte : UInt8} (found : pool.running[i]? = some task) (here : task.bytes[task.fed]? = some byte)
    (serial : Serial pool (.feed i)) (last : ¬task.fed + 1 < task.bytes.length) : ∃ done' running', Accounted
      { pool with
        parser := (pool.parser.parseByte byte).1
        running := pool.running.eraseIdx i
        delivered := pool.delivered ++ Workers.deliver (pool.parser.parseByte byte).2 }
      sent done' queued running' := by
  obtain ⟨datagram, foundDatagram, bytes⟩ := map_getElem? accounted.loops found
  obtain ⟨start, idle, parsed⟩ := accounted.fedBy found serial
  have ending : Workers.deliver (pool.parser.parseByte byte).2 = [received datagram.packet] ∧
      Idle (pool.parser.parseByte byte).1 := by
    rw [parsed, ← bytes]
    exact deliver_last idle (bytes ▸ here) (bytes ▸ last)
  refine ⟨done ++ [datagram], running.eraseIdx i, ?_, accounted.tasks, ?_, ?_, ?_, Or.inl ⟨serial, ending.2⟩⟩
  · simp only [ending.1, accounted.delivered, List.map_append, List.map_cons, List.map_nil]
  · rw [← List.eraseIdx_map, ← List.eraseIdx_map, accounted.loops]
  · rw [List.perm_iff_count]
    intro other
    have before := accounted.balance.count_eq other
    have finished := count_eraseIdx foundDatagram other
    simp only [List.count_append] at before ⊢
    omega
  · intro other member
    exact accounted.unfinished other (List.mem_of_mem_eraseIdx member)

theorem Accounted.step (accounted : Accounted pool sent done queued running) {action : Workers.Action}
    (serial : Serial pool action) (stepped : Workers.step pool action = some next) :
    ∃ done' queued' running', Accounted next (Workers.arrived sent action) done' queued' running' := by
  cases action with
  | push now datagram =>
      obtain rfl := Option.some.inj stepped
      exact ⟨done, queued ++ [datagram], running, accounted.push now datagram⟩
  | take i =>
      cases found : pool.tasks[i]? with
      | none => simp [Workers.step, found] at stepped
      | some item =>
          simp only [Workers.step, found, Option.bind_eq_bind, Option.bind_some] at stepped
          split_ifs at stepped
          obtain rfl := Option.some.inj stepped
          obtain ⟨queued', running', taken⟩ := accounted.take found
          exact ⟨done, queued', running', taken⟩
  | feed i =>
      cases found : pool.running[i]? with
      | none => simp [Workers.step, found] at stepped
      | some task =>
          cases here : task.bytes[task.fed]? with
          | none => simp [Workers.step, found, here] at stepped
          | some byte =>
              simp only [Workers.step, found, here, Option.bind_eq_bind, Option.bind_some] at stepped
              obtain rfl := Option.some.inj stepped
              by_cases more : task.fed + 1 < task.bytes.length
              · rw [if_pos more]
                exact ⟨done, queued, running, accounted.feedMore found here serial more⟩
              · rw [if_neg more]
                obtain ⟨done', running', fed⟩ := accounted.feedLast found here serial more
                exact ⟨done', queued, running', fed⟩

end Steps

/-! ## Runs -/

def sentBy (actions : List Workers.Action) : List Datagram := actions.foldl Workers.arrived []

structure DeliversExactly (pool : Workers) (sent : List Datagram) : Prop where
  genuine : pool.delivered.Subperm (sent.map fun datagram => received datagram.packet)
  complete : pool.tasks = [] → pool.running = [] →
    pool.delivered.Perm (sent.map fun datagram => received datagram.packet)

theorem Accounted.deliversExactly {pool : Workers} {sent done queued running : List Datagram}
    (accounted : Accounted pool sent done queued running) : DeliversExactly pool sent := by
  have balance := accounted.balance.map fun datagram => received datagram.packet
  rw [List.map_append, List.map_append, List.append_assoc] at balance
  refine ⟨?_, fun noTask noLoop => ?_⟩
  · rw [accounted.delivered]
    exact (List.sublist_append_left _ _).subperm.trans balance.symm.subperm
  · have noQueued := accounted.tasks
    have noRunning := accounted.loops
    rw [noTask] at noQueued
    rw [noLoop] at noRunning
    rw [List.map_eq_nil_iff.mp noQueued.symm, List.map_eq_nil_iff.mp noRunning.symm] at balance
    rw [accounted.delivered]
    simpa using balance.symm

theorem serial_run_delivers_exactly (threads : Nat) (actions : List Workers.Action) (pool : Workers)
    (serial : Trace.Meets Workers.step Serial { threads } actions)
    (ran : Workers.run { threads } actions = some pool) : DeliversExactly pool (sentBy actions) := by
  let R : Workers → List Datagram → Prop := fun pool sent =>
    ∃ done queued running, Accounted pool sent done queued running
  have keeps : ∀ pool sent action next, R pool sent → Serial pool action →
      Workers.step pool action = some next → R next (Workers.arrived sent action) := by
    intro pool sent action next related here stepped
    obtain ⟨done, queued, running, accounted⟩ := related
    exact accounted.step here stepped
  have start : R { threads } [] :=
    ⟨[], [], [], rfl, rfl, rfl, List.Perm.refl [], nofun, Or.inl ⟨nofun, rfl, rfl⟩⟩
  obtain ⟨done, queued, running, accounted⟩ := Trace.run_follows keeps start serial ran
  exact accounted.deliversExactly

def ping (sequence : UInt16) : Datagram where
  packet := { header := { msgId := 9, sequence } }
  magic := marker_default
  short := short_default

theorem serial_run_delivers_exactly_two :
    let actions : List Workers.Action := [.push 0 (ping 1), .push 0 (ping 2), .take 0, .take 0] ++
      List.replicate 24 (.feed 0)
    ∃ pool, Workers.run { threads := 2 } actions = some pool ∧ DeliversExactly pool [ping 1, ping 2] := by
  intro actions
  have returns : (Workers.run { threads := 2 } actions).isSome = true := by decide +kernel
  obtain ⟨pool, ran⟩ := Option.isSome_iff_exists.mp returns
  exact ⟨pool, ran, serial_run_delivers_exactly 2 actions pool (by decide +kernel) ran⟩

/-- Two workers that alternate byte by byte: both tasks run to their end and nothing is delivered. -/
theorem interleaved_run_loses_both :
    let actions : List Workers.Action := [.push 0 (ping 1), .push 0 (ping 2), .take 0, .take 0] ++
      (List.replicate 11 [.feed 0, .feed 1]).flatten ++ [.feed 0, .feed 0]
    ∃ pool, Workers.run { threads := 2 } actions = some pool ∧ ¬DeliversExactly pool (sentBy actions) := by
  intro actions
  have ends : (Workers.run { threads := 2 } actions).map
      (fun pool => (pool.tasks, pool.running, pool.delivered)) = some ([], [], []) := by decide +kernel
  obtain ⟨pool, ran, final⟩ := Option.map_eq_some_iff.mp ends
  obtain ⟨noTask, rest⟩ := Prod.mk.inj final
  obtain ⟨noLoop, nothing⟩ := Prod.mk.inj rest
  refine ⟨pool, ran, fun exactly => ?_⟩
  have lost := (exactly.complete noTask noLoop).length_eq
  rw [nothing, List.length_map] at lost
  exact absurd lost (by decide)

end KnowledgeAcquisition.Proof.RoCommLink
