import KnowledgeAcquisition.Ipc.PipeClient
import KnowledgeAcquisition.Proof.Ipc.Header

/-!
# Clients of one server

Replies come out of the shared pipe in the order of the requests, and a sequence number tells only the last
push from the earlier ones.
-/

namespace KnowledgeAcquisition.Proof.Ipc
open KnowledgeAcquisition.Ipc Library Library.Trace

@[simp] theorem request_toBytes_length (req : IPCRequestPayload) : req.toBytes.length = IPCRequestPayload.size := by
  simp [IPCRequestPayload.toBytes, IPCRequestPayload.size]

theorem request_command (req : IPCRequestPayload) : (IPCRequestPayload.ofBytes req.toBytes).command = req.command := by
  have front : req.clientId.toList.length = 32 := Vector.length_toList
  have last : (littleEndian 4 req.command.toNat).take 4 = littleEndian 4 req.command.toNat :=
    List.take_of_length_le (Nat.le_of_eq (littleEndian_length 4 _))
  rw [IPCRequestPayload.ofBytes, IPCRequestPayload.toBytes, List.drop_left' front, last]
  exact uint32_littleEndian req.command

theorem request_packet (req : IPCRequestPayload) (seq : UInt32) :
    ∃ clientId, request (packet .command req.toBytes seq) = some (clientId, req.command) := by
  refine ⟨(IPCRequestPayload.ofBytes req.toBytes).clientId.toList.takeWhile (· ≠ 0), ?_⟩
  simp only [request, packet, request_toBytes_length, and_self, if_true, request_command]

section Handshake

variable {ι : Type} [DecidableEq ι] (parties : Parties ι)

/-- A client takes a reply in its turn or in that of a client with another number, the turns being in the order of the
requests, and the server has no session yet for an id that it is asked to register. -/
def InTurn (s : Handshake ι) : Handshake.Action ι → Prop
  | .read client => ∀ turn ∈ s.sendOrder[s.reads]?, turn = client ∨ parties.currentSeq turn ≠ parties.currentSeq client
  | .accept => ∀ pending ∈ s.requests.head?, ∀ asked ∈ request pending.2, s.server.registry asked.1 = none
  | _ => True

instance (s : Handshake ι) (action : Handshake.Action ι) : Decidable (InTurn parties s action) :=
  match action with
  | .send _ => inferInstanceAs (Decidable True)
  | .accept => inferInstanceAs (Decidable (∀ pending ∈ s.requests.head?, ∀ asked ∈ request pending.2, _ = none))
  | .server _ => inferInstanceAs (Decidable True)
  | .read _ => inferInstanceAs (Decidable (∀ turn ∈ s.sendOrder[s.reads]?, _ ∨ _))

/-- A client that switched took the reply with which the server opened its own session. -/
def OwnReply (s : Handshake ι) : Prop :=
  ∀ client reply, s.clients client = .returned (.switched reply) → reply.client = client ∧ reply.answer = .opened

structure Queued (s : Handshake ι) : Prop where
  order : s.replies.map Reply.client ++ s.requests.map Prod.fst = s.sendOrder.drop s.reads
  requests : ∀ pending ∈ s.requests, pending.2.header.sequenceId = parties.currentSeq pending.1 ∧
    ∃ clientId command, request pending.2 = some (clientId, command)
  replies : ∀ reply ∈ s.replies, reply.packet.header.sequenceId = parties.currentSeq reply.client ∧
    reply.answer = .opened
  reads : s.reads ≤ s.sendOrder.length
  own : OwnReply s

theorem ownReply_update {s : Handshake ι} (own : OwnReply s) {client : ι} {phase : ClientPhase ι}
    (fresh : ∀ reply, phase = .returned (.switched reply) → reply.client = client ∧ reply.answer = .opened)
    {other : ι} {reply : Reply ι}
    (switched : Function.update s.clients client phase other = .returned (.switched reply)) :
    reply.client = other ∧ reply.answer = .opened := by
  by_cases same : other = client
  · subst same
    rw [Function.update_self] at switched
    exact fresh reply switched
  · rw [Function.update_of_ne same] at switched
    exact own other reply switched

omit [DecidableEq ι] in
theorem takeReply_switched {currentSeq : UInt32} {reply taken : Reply ι}
    (switched : takeReply currentSeq reply = .switched taken) :
    taken = reply ∧ reply.packet.header.sequenceId = currentSeq := by
  unfold takeReply at switched
  split_ifs at switched with _ _ same
  exact ⟨(Outcome.switched.inj switched).symm, same⟩

theorem queued_send {s : Handshake ι} (inv : Queued parties s) (client : ι) :
    Queued parties { s with
      clients := Function.update s.clients client .waiting
      requests := s.requests ++ [(client, packet .command (requestPayload (parties.clientId client) 1).toBytes
        (parties.currentSeq client))]
      sendOrder := s.sendOrder ++ [client] } where
  order := by
    rw [List.drop_append_of_le_length inv.reads, ← inv.order, List.map_append, List.append_assoc]
    rfl
  requests pending member := by
    cases List.mem_append.mp member with
    | inl old => exact inv.requests pending old
    | inr new =>
        obtain ⟨clientId, asked⟩ := request_packet (requestPayload (parties.clientId client) 1)
          (parties.currentSeq client)
        obtain rfl := List.mem_singleton.mp new
        exact ⟨rfl, clientId, _, asked⟩
  replies := inv.replies
  reads := by
    rw [List.length_append]
    exact Nat.le_trans inv.reads (Nat.le_add_right _ _)
  own _ _ switched := by
    apply ownReply_update inv.own _ switched
    intro _ returned
    cases returned

theorem queued_read {s : Handshake ι} (inv : Queued parties s) {client : ι} {reply : Reply ι}
    {replies : List (Reply ι)} (head : s.replies = reply :: replies) (turn : InTurn parties s (.read client)) :
    Queued parties { s with
      clients := Function.update s.clients client (.returned (takeReply (parties.currentSeq client) reply)), replies
      reads := s.reads + 1 } := by
  have order := inv.order
  rw [head] at order
  have inside : s.reads < s.sendOrder.length := by
    have length := congrArg List.length order
    rw [List.map_cons, List.cons_append, List.length_cons, List.length_drop] at length
    omega
  rw [List.drop_eq_getElem_cons inside] at order
  have next : s.sendOrder[s.reads]? = some reply.client :=
    List.getElem?_eq_some_iff.mpr ⟨inside, (List.cons.inj order).1.symm⟩
  obtain ⟨number, opened⟩ := inv.replies reply (head ▸ List.mem_cons_self)
  refine ⟨(List.cons.inj order).2, inv.requests, ?_, inside, ?_⟩
  · exact fun later member => inv.replies later (head ▸ List.mem_cons_of_mem reply member)
  · intro other taken switched
    apply ownReply_update inv.own _ switched
    intro taken outcome
    obtain ⟨rfl, same⟩ := takeReply_switched (ClientPhase.returned.inj outcome)
    exact ⟨(turn _ next).resolve_right (not_not_intro (number.symm.trans same)), opened⟩

omit [DecidableEq ι] in
theorem queued_accept {s : Handshake ι} (inv : Queued parties s) {client : ι} {req : Received} {requests : List (ι × Received)}
    (head : s.requests = (client, req) :: requests)
    (absent : ∀ asked ∈ request req, s.server.registry asked.1 = none)
    (server : PipeServer) (wire : Answer → List UInt8) :
    Queued parties { s with
      server, requests
      replies := s.replies ++ (acceptClient s.server.registry req).1.toList.map fun answer =>
        { client, answer, packet := packet .command (wire answer) req.header.sequenceId } } := by
  obtain ⟨number, clientId, command, asked⟩ := inv.requests (client, req) (head ▸ List.mem_cons_self)
  have answer : (acceptClient s.server.registry req).1 = some .opened := by
    simp only [acceptClient, asked, absent _ asked]
  have order := inv.order
  rw [head] at order
  rw [answer]
  refine ⟨?_, ?_, ?_, inv.reads, inv.own⟩
  · rw [← order, List.map_append, List.append_assoc]
    rfl
  · exact fun pending member => inv.requests pending (head ▸ List.mem_cons_of_mem _ member)
  · intro reply member
    cases List.mem_append.mp member with
    | inl old => exact inv.replies reply old
    | inr new =>
        rw [List.mem_singleton.mp new]
        exact ⟨number, rfl⟩

theorem queued_step (s : Handshake ι) (action : Handshake.Action ι) (s' : Handshake ι) (inv : Queued parties s)
    (turn : InTurn parties s action) (moves : s.step parties action = some s') : Queued parties s' := by
  cases action with
  | send client =>
      simp only [Handshake.step, Option.ite_none_right_eq_some, Option.some.injEq] at moves
      obtain ⟨-, rfl⟩ := moves
      exact queued_send parties inv client
  | accept =>
      cases head : s.requests with
      | nil => simp [Handshake.step, head] at moves
      | cons pending requests =>
          obtain ⟨client, req⟩ := pending
          simp only [Handshake.step, head] at moves
          obtain ⟨server, -, rfl⟩ := Option.map_eq_some_iff.mp moves
          exact queued_accept parties inv head (turn (client, req) (by rw [head]; rfl)) server _
  | server action =>
      cases action with
      | accept req => cases moves
      | _ =>
          obtain ⟨server, -, rfl⟩ := Option.map_eq_some_iff.mp moves
          exact ⟨inv.order, inv.requests, inv.replies, inv.reads, inv.own⟩
  | read client =>
      cases head : s.replies with
      | nil => simp [Handshake.step, head] at moves
      | cons reply replies =>
          simp only [Handshake.step, head, Option.ite_none_right_eq_some, Option.some.injEq] at moves
          obtain ⟨-, rfl⟩ := moves
          exact queued_read parties inv head turn

theorem switched_on_own_reply (server : PipeServer) (actions : List (Handshake.Action ι)) (s : Handshake ι)
    (meets : Meets (Handshake.step parties) (InTurn parties) { server } actions)
    (ran : run (Handshake.step parties) { server } actions = some s) : OwnReply s := by
  have start : Queued parties ({ server } : Handshake ι) := by
    refine ⟨rfl, ?_, ?_, Nat.le_refl 0, ?_⟩
    · exact fun _ member => absurd member List.not_mem_nil
    · exact fun _ member => absurd member List.not_mem_nil
    · intro _ _ returned
      cases returned
  exact (run_preserves (queued_step parties) start meets ran).own

end Handshake

def threeClients : Parties (Fin 3) where
  clientId i := [97 + UInt8.ofNat i]
  currentSeq i := if i.val = 2 then 1 else 0
  literal _ := 4096

theorem first_client_switches : ∃ s : Handshake (Fin 3),
    run (Handshake.step threeClients) { server := { clock := 0 } }
      [.send 0, .send 1, .send 2, .accept, .read 0, .server .join, .accept, .read 2] = some s ∧ OwnReply s ∧
      ∃ reply, s.clients 0 = .returned (.switched reply) := by
  refine ⟨_, rfl, ?_, ?_⟩
  · exact switched_on_own_reply threeClients { clock := 0 }
      [.send 0, .send 1, .send 2, .accept, .read 0, .server .join, .accept, .read 2] _ (by decide) rfl
  · exact ⟨_, rfl⟩

def twoClients : Parties Bool where
  clientId second := if second then [98] else [97]
  currentSeq _ := 0
  literal _ := 4096

/-- The second client takes the reply to the first one's request. -/
theorem switched_on_foreign_reply : ∃ s : Handshake Bool,
    run (Handshake.step twoClients) { server := { clock := 0 } }
      [.send false, .send true, .accept, .read true] = some s ∧ ¬ OwnReply s := by
  refine ⟨_, rfl, ?_⟩
  intro own
  have mine := own true ⟨false, .opened, packet .command (viewBytes "OPENED" 4096) 0⟩ rfl
  exact absurd mine.1 (by decide)

/-! ## Feedback -/

/-- A reply is compared when no push has begun since the one that it answers, or so many that the counter has come
round. -/
def Latest (s : Link) : Link.Action → Prop
  | .compare => ∀ reply ∈ s.reading, reply.push % 2 ^ 32 = s.pushes % 2 ^ 32
  | _ => True

instance (s : Link) (action : Link.Action) : Decidable (Latest s action) :=
  match action with
  | .beginPush _ _ => inferInstanceAs (Decidable True)
  | .endPush => inferInstanceAs (Decidable True)
  | .serve _ _ => inferInstanceAs (Decidable True)
  | .receive => inferInstanceAs (Decidable True)
  | .compare => inferInstanceAs (Decidable (∀ reply ∈ s.reading, _ = _))

def Bears (first : UInt32) (sent : Numbered) : Prop :=
  sent.packet.header.sequenceId = first + UInt32.ofNat sent.push

structure Tracked (first : UInt32) (s : Link) : Prop where
  current : s.currentSeq = first + UInt32.ofNat s.pushes
  upstream : ∀ sent ∈ s.upstream, Bears first sent
  downstream : ∀ reply ∈ s.downstream, Bears first reply
  reading : ∀ reply ∈ s.reading, Bears first reply

theorem feedback_seq {lastHeartbeatTime now : UInt64} {fd seq : UInt32} {reply : Received}
    (member : reply ∈ Link.feedback lastHeartbeatTime now fd seq) : reply.header.sequenceId = seq := by
  simp only [Link.feedback] at member
  split at member <;> simp only [List.mem_cons, List.not_mem_nil, or_false] at member
  · cases member with
    | inl first => rw [first]; rfl
    | inr second => rw [second]; rfl
  · rw [member]
    rfl

variable {first : UInt32}

theorem tracked_step {s s' : Link} {action : Link.Action} (tracked : Tracked first s)
    (moves : s.step action = some s') : Tracked first s' := by
  obtain ⟨current, upstream, downstream, reading⟩ := tracked
  cases action with
  | beginPush type payload =>
      simp only [Link.step, Option.ite_none_right_eq_some, Option.some.injEq] at moves
      obtain ⟨-, rfl⟩ := moves
      refine ⟨?_, upstream, downstream, reading⟩
      rw [current, UInt32.ofNat_add, UInt32.add_assoc]
      rfl
  | endPush =>
      obtain ⟨⟨type, payload⟩, -, rfl⟩ := Option.map_eq_some_iff.mp moves
      refine ⟨current, ?_, downstream, reading⟩
      intro sent member
      cases List.mem_append.mp member with
      | inl old => exact upstream sent old
      | inr new =>
          rw [List.mem_singleton.mp new]
          exact current
  | serve now fd =>
      cases head : s.upstream with
      | nil => simp [Link.step, head] at moves
      | cons sent rest =>
          rw [head] at upstream
          have number := upstream sent List.mem_cons_self
          have later : ∀ sent ∈ rest, Bears first sent :=
            fun other member => upstream other (List.mem_cons_of_mem sent member)
          simp only [Link.step, head] at moves
          split at moves
          case isTrue =>
              obtain rfl := Option.some.inj moves
              exact ⟨current, later, downstream, reading⟩
          case isFalse carries =>
              obtain rfl := Option.some.inj moves
              refine ⟨current, later, ?_, reading⟩
              intro reply member
              cases List.mem_append.mp member with
              | inl old => exact downstream reply old
              | inr new =>
                  obtain ⟨answer, fed, rfl⟩ := List.mem_map.mp new
                  exact (feedback_seq fed).trans number
  | receive =>
      simp only [Link.step] at moves
      split at moves <;> cases moves
      case h_1 reply rest head free =>
          rw [head] at downstream
          refine ⟨current, upstream, ?_, ?_⟩
          · exact fun later member => downstream later (List.mem_cons_of_mem reply member)
          · intro taken read
            obtain ⟨-, same⟩ := Option.ite_none_left_eq_some.mp read
            obtain rfl := Option.some.inj same
            exact downstream reply List.mem_cons_self
  | compare =>
      obtain ⟨reply, read, rfl⟩ := Option.map_eq_some_iff.mp moves
      exact ⟨current, upstream, downstream, nofun⟩

theorem bears_current_iff {s : Link} (tracked : Tracked first s) {reply : Numbered} (bears : Bears first reply) :
    reply.packet.header.sequenceId = s.currentSeq ↔ reply.push % 2 ^ 32 = s.pushes % 2 ^ 32 := by
  rw [bears, tracked.current, UInt32.add_right_inj, ← UInt32.toNat_inj, UInt32.toNat_ofNat', UInt32.toNat_ofNat']

theorem lost_step_iff {s s' : Link} {action : Link.Action} (tracked : Tracked first s) (quiet : s.lost = [])
    (moves : s.step action = some s') : s'.lost = [] ↔ Latest s action := by
  cases action with
  | beginPush type payload =>
      simp only [Link.step, Option.ite_none_right_eq_some, Option.some.injEq] at moves
      obtain ⟨-, rfl⟩ := moves
      exact iff_of_true quiet trivial
  | endPush =>
      obtain ⟨_, -, rfl⟩ := Option.map_eq_some_iff.mp moves
      exact iff_of_true quiet trivial
  | serve now fd =>
      simp only [Link.step] at moves
      split at moves
      · cases moves
      · split at moves <;> obtain rfl := Option.some.inj moves <;> exact iff_of_true quiet trivial
  | receive =>
      simp only [Link.step] at moves
      split at moves <;> cases moves
      exact iff_of_true quiet trivial
  | compare =>
      obtain ⟨reply, read, rfl⟩ := Option.map_eq_some_iff.mp moves
      have same := bears_current_iff tracked (tracked.reading reply read)
      have latest : Latest s .compare ↔ reply.push % 2 ^ 32 = s.pushes % 2 ^ 32 := by
        simp [Latest, read]
      rw [latest, ← same, quiet]
      simp

theorem no_loss_reported_iff (currentSeq : UInt32) (actions : List Link.Action) :
    Meets Link.step Latest { currentSeq } actions ↔
      ∀ made later, actions = made ++ later → ∀ s ∈ run Link.step { currentSeq } made, s.lost = [] := by
  have start : Tracked currentSeq { currentSeq } := by
    refine ⟨?_, nofun, nofun, nofun⟩
    exact (UInt32.add_zero currentSeq).symm
  have keeps : ∀ s action, Tracked currentSeq s ∧ s.lost = [] →
      (Latest s action ↔ ∀ s' ∈ Link.step s action, Tracked currentSeq s' ∧ s'.lost = []) := by
    rintro s action ⟨tracked, quiet⟩
    cases moves : s.step action with
    | none =>
        refine iff_of_true ?_ nofun
        cases action with
        | compare =>
            intro reply read
            rw [Link.step, Option.mem_def.mp read] at moves
            cases moves
        | _ => trivial
    | some s' =>
        rw [← lost_step_iff tracked quiet moves]
        constructor
        · rintro silent _ ⟨⟩
          exact ⟨tracked_step tracked moves, silent⟩
        · intro all
          exact (all s' rfl).2
  rw [meets_iff_throughout keeps ⟨start, rfl⟩]
  constructor
  · exact fun all made later split s ran => (all made later split s ran).2
  · intro silent made later split s ran
    have tracked : Tracked currentSeq s := run_keeps (fun _ _ _ tracked moves => tracked_step tracked moves) start ran
    exact ⟨tracked, silent made later split s ran⟩

def onePushAtATime : List Link.Action :=
  [.beginPush .text [104], .endPush, .serve 5000 7, .receive, .compare, .receive, .compare,
   .beginPush .text [105], .endPush, .serve 5100 7, .receive, .compare]

theorem no_loss_one_push_at_a_time : ∃ s, run Link.step { currentSeq := 0 } onePushAtATime = some s ∧ s.lost = [] := by
  refine ⟨_, rfl, ?_⟩
  exact (no_loss_reported_iff 0 onePushAtATime).mp (by decide) onePushAtATime [] (List.append_nil _).symm _ rfl

/-- The second push comes before the reply to the first one is read. -/
theorem loss_reported_without_loss : ∃ s, run Link.step { currentSeq := 0 }
    [.beginPush .text [104], .endPush, .beginPush .text [105], .endPush, .serve 5000 7, .receive, .compare] =
      some s ∧ s.lost ≠ [] := by
  refine ⟨_, rfl, ?_⟩
  decide

end KnowledgeAcquisition.Proof.Ipc
