import KnowledgeAcquisition.Proof.RoCommLink.Processing
import KnowledgeAcquisition.RoCommLink.Session

/-!
# Accepted commands

An acknowledgement says `ACCEPTED` whatever `dispatch` found to call, so that an accepted command has reached a
callback exactly when the peer has one. The invariant follows the acknowledgements: each one on the
network, and each future set by one, goes back to a packet the peer has dispatched.
-/

namespace KnowledgeAcquisition.Proof.RoCommLink
open KnowledgeAcquisition.RoCommLink RoCommLinkParser PacketSerializer Library

theorem ofBytes_bytes (ack : CommandAckPayload) : CommandAckPayload.ofBytes ack.bytes = some ack := by
  simp only [CommandAckPayload.bytes, CommandAckPayload.ofBytes, join_bytes]

theorem handleComplete_ack (node : Node) (packet : Packet) (result : CommandResult) :
    node.handleComplete (received (Node.ackPacket packet result)) =
      ({ node with commandTracker := node.commandTracker.resolve packet.header.sequence (.ofByte result.toByte) },
        []) := by
  have payload : (received (Node.ackPacket packet result)).payload = CommandAckPayload.bytes
      { commandMsgId := packet.header.msgId, targetSequence := packet.header.sequence, result := result.toByte } :=
    rfl
  have isAck : (received (Node.ackPacket packet result)).header.msgId = Node.msgIdCommandAck := rfl
  simp only [Node.handleComplete, isAck, if_true, payload, ofBytes_bytes]

def ackFrame (packet : Packet) : List UInt8 := serialize (Node.ackPacket packet .accepted)

def AllIdle (node : Node) : Prop :=
  ∀ interfaceId, (node.parser interfaceId).state = .waitStartOfTransmission ∧
    (node.parser interfaceId).earlyFilter = none

theorem AllIdle.passes {node : Node} (idle : AllIdle node) (interfaceId systemId : UInt8) :
    Passes (node.parser interfaceId).earlyFilter systemId := by
  rw [(idle interfaceId).2]
  exact nofun

theorem AllIdle.finish {node : Node} (idle : AllIdle node) (interfaceId : UInt8) (packet : Packet)
    (commandTracker : CommandTracker) :
    AllIdle (({ node with commandTracker } : Node).setParser interfaceId
      (finished (node.parser interfaceId) packet)) := by
  intro other
  by_cases same : other = interfaceId
  · subst same
    rw [parser_setParser]
    exact ⟨rfl, (idle other).2⟩
  · have kept : (({ node with commandTracker } : Node).setParser interfaceId
        (finished (node.parser interfaceId) packet)).parser other = node.parser other := by
      simp [Node.parser, Node.setParser, same]
    rw [kept]
    exact idle other

theorem processRawBytes_ack {node : Node} (idle : AllIdle node) (packet : Packet) (interfaceId : UInt8) :
    ∃ node' ack, node.processRawBytes (ackFrame packet) interfaceId = (node', [.complete ack]) ∧
      AllIdle node' ∧
      node'.commandTracker = node.commandTracker.resolve packet.header.sequence .accepted := by
  have magic : Marker (Node.ackPacket packet .accepted).header.magic := Or.inl rfl
  have short : (Node.ackPacket packet .accepted).payload.length ≤ 255 := by
    show 5 ≤ 255
    omega
  have processed := processRawBytes_local (idle interfaceId).1 magic (idle.passes interfaceId _) short
  rw [handleComplete_ack] at processed
  refine ⟨_, _, processed, idle.finish interfaceId _ _, rfl⟩

def Answers (dispatcher : RoCommLinkDispatcher) (events : List Event) : Prop :=
  ∀ interfaceId bytes, .send interfaceId bytes ∈ events →
    ∃ packet, packet.header.msgId = Node.msgIdUserCommand ∧ bytes = ackFrame packet ∧
      ∀ callback, some callback ∈ dispatcher.registry Node.msgIdUserCommand → .invoke callback packet ∈ events

theorem Answers.nil (dispatcher : RoCommLinkDispatcher) : Answers dispatcher [] := by
  intro interfaceId bytes member
  cases member

theorem dispatch_invokes (node : Node) (packet : Packet) (callback : Nat)
    (subscribed : some callback ∈ node.dispatcher.registry packet.header.msgId) :
    .invoke callback packet ∈ (node.dispatch packet).1 := by
  have invoked : callback ∈ (node.dispatcher.dispatch packet).1 :=
    List.mem_filterMap.mpr ⟨some callback, subscribed, rfl⟩
  exact List.mem_map_of_mem invoked

theorem dispatch_sends_nothing (node : Node) (packet : Packet) (interfaceId : UInt8) (bytes : List UInt8) :
    .send interfaceId bytes ∉ (node.dispatch packet).1 := by
  intro member
  obtain ⟨callback, -, wrong⟩ := List.mem_map.mp member
  cases wrong

theorem handleComplete_answers (node : Node) (packet : Packet) :
    Answers node.dispatcher (node.handleComplete packet).2 := by
  intro interfaceId bytes member
  unfold Node.handleComplete at member ⊢
  by_cases isAck : packet.header.msgId = Node.msgIdCommandAck
  · rw [if_pos isAck] at member
    cases found : CommandAckPayload.ofBytes packet.payload <;> simp [found] at member
  · rw [if_neg isAck] at member ⊢
    by_cases isCommand : packet.header.msgId = Node.msgIdUserCommand
    · rw [if_pos isCommand] at member ⊢
      have accepts : (node.dispatch packet).2 = true := rfl
      simp only [accepts, if_true] at member ⊢
      cases route : node.sendPacket (Node.ackPacket packet .accepted) with
      | none =>
          simp only [route] at member
          exact absurd member (dispatch_sends_nothing node packet interfaceId bytes)
      | some sent =>
          obtain ⟨target, frame⟩ := sent
          simp only [route] at member ⊢
          have frameEq : frame = ackFrame packet := by
            simp only [Node.sendPacket] at route
            split_ifs at route
            exact (Prod.mk.inj (Option.some.inj route)).2.symm
          rcases List.mem_append.mp member with earlier | last
          · exact absurd earlier (dispatch_sends_nothing node packet interfaceId bytes)
          · have same : Event.send interfaceId bytes = .send target frame := List.mem_singleton.mp last
            refine ⟨packet, isCommand, ?_, fun callback subscribed => ?_⟩
            · rw [← frameEq]
              injection same
            · rw [← isCommand] at subscribed
              exact List.mem_append_left _ (dispatch_invokes node packet callback subscribed)
    · rw [if_neg isCommand] at member
      exact absurd member (dispatch_sends_nothing node packet interfaceId bytes)

theorem Answers.cons {dispatcher : RoCommLinkDispatcher} {events : List Event} (answers : Answers dispatcher events)
    {event : Event} (silent : ∀ interfaceId bytes, event ≠ .send interfaceId bytes) :
    Answers dispatcher (event :: events) := by
  intro interfaceId bytes member
  rcases List.mem_cons.mp member with same | later
  · exact absurd same.symm (silent interfaceId bytes)
  · obtain ⟨packet, isCommand, frame, invoked⟩ := answers interfaceId bytes later
    exact ⟨packet, isCommand, frame, fun callback subscribed =>
      List.mem_cons_of_mem event (invoked callback subscribed)⟩

theorem handleResult_answers (whole : List UInt8) (node : Node) (result : ParseResult) :
    Answers node.dispatcher (node.handleResult whole result).2 := by
  obtain ⟨status, packet⟩ := result
  cases packet with
  | none => cases status <;> exact .nil _
  | some packet =>
      cases status with
      | processing => exact .nil _
      | streamForwardByte =>
          intro interfaceId bytes member
          simp only [Node.handleResult] at member
          split_ifs at member <;> simp at member
      | complete => exact (handleComplete_answers node packet).cons (by simp)

theorem handleResult_dispatcher (whole : List UInt8) (node : Node) (result : ParseResult) :
    (node.handleResult whole result).1.dispatcher = node.dispatcher := by
  obtain ⟨status, packet⟩ := result
  cases packet with
  | none => cases status <;> rfl
  | some packet =>
      cases status with
      | processing => rfl
      | streamForwardByte => rfl
      | complete =>
          simp only [Node.handleResult, Node.handleComplete]
          split_ifs
          · cases CommandAckPayload.ofBytes packet.payload <;> rfl
          · cases node.sendPacket _ <;> rfl
          · cases node.sendPacket _ <;> rfl
          · rfl

theorem processRawBytes_answers (node : Node) (bytes : List UInt8) (interfaceId : UInt8) :
    (node.processRawBytes bytes interfaceId).1.dispatcher = node.dispatcher ∧
      Answers node.dispatcher (node.processRawBytes bytes interfaceId).2 := by
  have step : ∀ other byte, other.dispatcher = node.dispatcher →
      (Node.processByte interfaceId bytes other byte).1.dispatcher = node.dispatcher ∧
      Answers node.dispatcher (Node.processByte interfaceId bytes other byte).2 := by
    intro other byte same
    have answers := handleResult_answers bytes
      (other.setParser interfaceId (parseByte (other.parser interfaceId) byte).1)
      (parseByte (other.parser interfaceId) byte).2
    rw [show (other.setParser interfaceId (parseByte (other.parser interfaceId) byte).1).dispatcher =
      node.dispatcher from same] at answers
    exact ⟨(handleResult_dispatcher _ _ _).trans same, answers⟩
  by_cases empty : bytes = []
  · rw [Node.processRawBytes, if_pos empty]
    exact ⟨rfl, .nil _⟩
  · obtain ⟨final, all⟩ := @Transducer.feed_invariant _ _ _ _ _ _ step node rfl bytes
    simp only [Node.processRawBytes, if_neg empty]
    refine ⟨final, fun target frame member => ?_⟩
    obtain ⟨events, inside, sent⟩ := List.mem_flatten.mp member
    obtain ⟨packet, isCommand, ack, invoked⟩ := all events inside target frame sent
    exact ⟨packet, isCommand, ack, fun callback subscribed =>
      List.mem_flatten.mpr ⟨events, inside, invoked callback subscribed⟩⟩

theorem mem_resolve {tracker : CommandTracker} {seq : UInt16} {result : CommandResult}
    {entry : UInt16 × CommandResult} (member : entry ∈ (tracker.resolve seq result).settled) :
    entry ∈ tracker.settled ∨ entry = (seq, result) := by
  unfold CommandTracker.resolve at member
  cases found : tracker.find seq with
  | none =>
      rw [found] at member
      exact Or.inl member
  | some _ =>
      rw [found] at member
      rcases List.mem_append.mp member with old | new
      · exact Or.inl old
      · exact Or.inr (List.mem_singleton.mp new)

theorem mem_checkTimeouts {tracker : CommandTracker} {now : Nat} {entry : UInt16 × CommandResult}
    (member : entry ∈ (tracker.checkTimeouts now).1.settled) : entry ∈ tracker.settled ∨ entry.2 = .failed := by
  rcases List.mem_append.mp member with old | new
  · exact Or.inl old
  · obtain ⟨checked, inside, here⟩ := List.mem_flatMap.mp new
    obtain ⟨transaction, -, rfl⟩ := List.mem_map.mp inside
    unfold CommandTracker.checkTransaction at here
    split_ifs at here
    · cases here
    · rw [List.mem_singleton.mp here]
      exact Or.inr rfl
    · cases here

theorem mem_track {tracker tracker' : CommandTracker} {now : Nat} {seq : UInt16} {packet : Packet}
    (tracked : tracker.track now seq packet = some tracker') : tracker'.settled = tracker.settled := by
  unfold CommandTracker.track at tracked
  cases found : tracker.find seq with
  | none =>
      rw [found] at tracked
      obtain rfl := Option.some.inj tracked
      rfl
  | some _ =>
      rw [found] at tracked
      cases tracked

/-! ## Runs -/

/-- An accepted command has reached a callback of the peer, and a peer without one accepts nothing. -/
structure Honest (session : Session) : Prop where
  reached : ∀ seq, session.Accepted seq → ∃ callback packet, (callback, packet) ∈ session.invoked ∧
    packet.header.sequence = seq ∧ packet.header.msgId = Node.msgIdUserCommand
  silent : ¬Session.HasCallback session.peer → ∀ seq, ¬session.Accepted seq

def Reached (session : Session) (packet : Packet) : Prop :=
  packet.header.msgId = Node.msgIdUserCommand ∧ ∃ callback, (callback, packet) ∈ session.invoked

structure Traced (session : Session) : Prop where
  operatorIdle : AllIdle session.operator
  callback : Session.HasCallback session.peer
  acks : ∀ frame ∈ session.toOperator, ∃ packet, Reached session packet ∧ frame = ackFrame packet
  accepted : ∀ seq, session.Accepted seq → ∃ packet, Reached session packet ∧ packet.header.sequence = seq

section Steps

variable {session next : Session}

theorem HasCallback.subscribe {peer : Node} (has : Session.HasCallback peer) (msgId : UInt16) (cb : MessageCallback) :
    Session.HasCallback { peer with dispatcher := peer.dispatcher.subscribe msgId cb } := by
  obtain ⟨callback, subscribed⟩ := has
  refine ⟨callback, ?_⟩
  simp only [RoCommLinkDispatcher.subscribe]
  by_cases same : Node.msgIdUserCommand = msgId
  · subst same
    rw [Function.update_self]
    exact List.mem_append_left _ subscribed
  · rw [Function.update_of_ne same]
    exact subscribed

theorem Traced.operatorStep (traced : Traced session) {operator : Node} {sending : List Packet}
    {issued : List UInt16} {toPeer : List (List UInt8)} (idle : AllIdle operator)
    (settled : ∀ seq, (seq, CommandResult.accepted) ∈ operator.commandTracker.settled → session.Accepted seq ∨
      ∃ packet, Reached session packet ∧ packet.header.sequence = seq) :
    Traced { session with operator, sending, issued, toPeer } := by
  refine ⟨idle, traced.callback, traced.acks, fun seq accepted => ?_⟩
  rcases settled seq accepted with old | new
  · exact traced.accepted seq old
  · exact new

theorem Traced.transmit (traced : Traced session) {i : Nat} {sent : Bool}
    (stepped : Session.step session (.transmit i sent) = some next) : Traced next := by
  obtain ⟨packet, -, rest⟩ := Option.bind_eq_some_iff.mp stepped
  have failing : ∀ seq, (seq, CommandResult.accepted) ∈
      (session.operator.commandTracker.resolve packet.header.sequence .failed).settled → session.Accepted seq := by
    intro seq accepted
    rcases mem_resolve accepted with old | wrong
    · exact old
    · cases wrong
  cases route : session.operator.sendPacket packet with
  | none =>
      simp only [route] at rest
      obtain rfl := Option.some.inj rest
      exact traced.operatorStep traced.operatorIdle fun seq accepted => Or.inl (failing seq accepted)
  | some frame =>
      simp only [route] at rest
      obtain rfl := Option.some.inj rest
      cases sent
      · exact traced.operatorStep traced.operatorIdle fun seq accepted => Or.inl (failing seq accepted)
      · exact traced.operatorStep traced.operatorIdle fun seq accepted => Or.inl accepted

theorem Reached.append {packet : Packet} (reached : Reached session packet) (invoked : List (Nat × Packet)) :
    Reached { session with invoked := session.invoked ++ invoked } packet := by
  obtain ⟨isCommand, by_, old⟩ := reached
  exact ⟨isCommand, by_, List.mem_append_left _ old⟩

theorem Traced.peerReceives (traced : Traced session) {i : Nat} {interfaceId : UInt8}
    (stepped : Session.step session (.peerReceives i interfaceId) = some next) : Traced next := by
  obtain ⟨frame, -, rest⟩ := Option.bind_eq_some_iff.mp stepped
  obtain rfl := Option.some.inj rest
  obtain ⟨sameDispatcher, answers⟩ := processRawBytes_answers session.peer frame interfaceId
  obtain ⟨callback, subscribed⟩ := traced.callback
  refine ⟨traced.operatorIdle, ⟨callback, ?_⟩, ?_, ?_⟩
  · show some callback ∈ (session.peer.processRawBytes frame interfaceId).1.dispatcher.registry _
    rw [sameDispatcher]
    exact subscribed
  · intro ack member
    rcases List.mem_append.mp member with old | new
    · obtain ⟨packet, reached, same⟩ := traced.acks ack old
      exact ⟨packet, reached.append _, same⟩
    · obtain ⟨event, inside, isSend⟩ := List.mem_filterMap.mp new
      cases event <;> simp only [Session.sentFrame, reduceCtorEq, Option.some.injEq] at isSend
      subst isSend
      obtain ⟨packet, isCommand, same, invoked⟩ := answers _ _ inside
      refine ⟨packet, ⟨isCommand, callback, ?_⟩, same⟩
      have called := invoked callback subscribed
      exact List.mem_append_right _ (List.mem_filterMap.mpr ⟨_, called, rfl⟩)
  · intro seq accepted
    obtain ⟨packet, reached, same⟩ := traced.accepted seq accepted
    exact ⟨packet, reached.append _, same⟩

theorem Traced.step (traced : Traced session) {action : Session.Action}
    (stepped : Session.step session action = some next) : Traced next := by
  cases action with
  | subscribe msgId cb =>
      obtain rfl := Option.some.inj stepped
      exact ⟨traced.operatorIdle, HasCallback.subscribe traced.callback msgId cb, traced.acks, traced.accepted⟩
  | track now command =>
      simp only [Session.step] at stepped
      split_ifs at stepped
      obtain ⟨tracker, tracked, rest⟩ := Option.bind_eq_some_iff.mp stepped
      obtain rfl := Option.some.inj rest
      refine traced.operatorStep traced.operatorIdle fun seq accepted => Or.inl ?_
      rw [Session.Accepted, ← mem_track tracked]
      exact accepted
  | transmit i sent => exact traced.transmit stepped
  | checkTimeouts now =>
      obtain rfl := Option.some.inj stepped
      refine traced.operatorStep traced.operatorIdle fun seq accepted => Or.inl ?_
      rcases mem_checkTimeouts accepted with old | wrong
      · exact old
      · cases wrong
  | peerReceives i interfaceId => exact traced.peerReceives stepped
  | operatorReceives i interfaceId =>
      obtain ⟨frame, found, rest⟩ := Option.bind_eq_some_iff.mp stepped
      obtain ⟨packet, reached, rfl⟩ := traced.acks frame (List.mem_of_getElem? found)
      obtain ⟨operator, ack, processed, idle, resolved⟩ :=
        processRawBytes_ack traced.operatorIdle packet interfaceId
      simp only [processed] at rest
      obtain rfl := Option.some.inj rest
      refine traced.operatorStep idle fun seq accepted => ?_
      rw [resolved] at accepted
      rcases mem_resolve accepted with old | new
      · exact Or.inl old
      · exact Or.inr ⟨packet, reached, (Prod.mk.inj new).1.symm⟩

end Steps

theorem start_idle (node : Node) : AllIdle { node with parsers := fun _ => none, commandTracker := {} } :=
  fun _ => ⟨rfl, rfl⟩

theorem Traced.honest {session : Session} (traced : Traced session) : Honest session := by
  refine ⟨fun seq accepted => ?_, fun none => absurd traced.callback none⟩
  obtain ⟨packet, ⟨isCommand, callback, invoked⟩, same⟩ := traced.accepted seq accepted
  exact ⟨callback, packet, invoked, same, isCommand⟩

theorem callback_honest {operator peer : Node} (callback : Session.HasCallback peer)
    {actions : List Session.Action} {session : Session}
    (ran : Session.run (Session.start operator peer) actions = some session) : Honest session := by
  have start : Traced (Session.start operator peer) := ⟨start_idle operator, callback, nofun, nofun⟩
  have traced : Traced session := Trace.run_keeps (fun _ _ _ traced stepped => traced.step stepped) start ran
  exact traced.honest

/-! ## Without a callback -/

/-- Some command can make the way to the peer and its acknowledgement the way back. -/
def Connected (operator peer : Node) : Prop :=
  ∃ systemId componentId, operator.transports (operator.determineRoutingTarget systemId componentId) = true ∧
    peer.transports (peer.determineRoutingTarget systemId componentId) = true

def command (systemId componentId : UInt8) : Datagram where
  packet := { header := { systemId, componentId, msgId := Node.msgIdUserCommand } }
  magic := marker_default
  short := short_default

def exchange (systemId componentId : UInt8) : List Session.Action :=
  [.track 0 (command systemId componentId), .transmit 0 true, .peerReceives 0 0, .operatorReceives 0 0]

theorem sendPacket_eq {node : Node} {packet : Packet}
    (route : node.transports (node.determineRoutingTarget packet.header.systemId packet.header.componentId) = true) :
    node.sendPacket packet =
      some (node.determineRoutingTarget packet.header.systemId packet.header.componentId, serialize packet) := by
  simp only [Node.sendPacket, route, if_true]

theorem handleComplete_command {node : Node} {packet : Packet} (isCommand : packet.header.msgId = Node.msgIdUserCommand)
    (route : node.transports (node.determineRoutingTarget packet.header.systemId packet.header.componentId) = true) :
    (node.handleComplete packet).1 = node ∧
      (node.handleComplete packet).2.filterMap Session.sentFrame = [ackFrame packet] := by
  have notAck : packet.header.msgId ≠ Node.msgIdCommandAck := by
    rw [isCommand]
    decide
  have accepts : (node.dispatch packet).2 = true := rfl
  let target := node.determineRoutingTarget packet.header.systemId packet.header.componentId
  have routed : node.sendPacket (Node.ackPacket packet .accepted) = some (target, ackFrame packet) :=
    sendPacket_eq route
  have quiet : (node.dispatch packet).1.filterMap Session.sentFrame = [] := by
    rw [List.filterMap_eq_nil_iff]
    intro event member
    obtain ⟨callback, -, rfl⟩ := List.mem_map.mp member
    rfl
  have result : node.handleComplete packet =
      (node, (node.dispatch packet).1 ++ [.send target (ackFrame packet)]) := by
    unfold Node.handleComplete
    rw [if_neg notAck, if_pos isCommand]
    simp only [accepts, if_true, routed]
  rw [result, List.filterMap_append, quiet]
  exact ⟨rfl, rfl⟩

theorem step_transmit {session : Session} {packet : Packet} {interfaceId : UInt8} {bytes : List UInt8} {i : Nat}
    (found : session.sending[i]? = some packet)
    (routed : session.operator.sendPacket packet = some (interfaceId, bytes)) :
    Session.step session (.transmit i true) =
      some { session with sending := session.sending.eraseIdx i, toPeer := session.toPeer ++ [bytes] } := by
  simp only [Session.step, found, routed, Option.bind_eq_bind, Option.bind_some, if_true]

theorem step_peerReceives {session : Session} {frame : List UInt8} {i : Nat} {interfaceId : UInt8} {peer : Node}
    {events : List Event} (found : session.toPeer[i]? = some frame)
    (processed : session.peer.processRawBytes frame interfaceId = (peer, events)) :
    Session.step session (.peerReceives i interfaceId) =
      some { session with
        peer
        toOperator := session.toOperator ++ events.filterMap Session.sentFrame
        invoked := session.invoked ++ events.filterMap Session.invocation } := by
  simp only [Session.step, found, processed, Option.bind_eq_bind, Option.bind_some]

theorem step_operatorReceives {session : Session} {packet : Packet} {i : Nat} {interfaceId : UInt8}
    (idle : AllIdle session.operator) (found : session.toOperator[i]? = some (ackFrame packet)) :
    ∃ next, Session.step session (.operatorReceives i interfaceId) = some next ∧ next.peer = session.peer ∧
      next.operator.commandTracker =
        session.operator.commandTracker.resolve packet.header.sequence .accepted := by
  obtain ⟨operator, ack, processed, -, resolved⟩ := processRawBytes_ack idle packet interfaceId
  refine ⟨{ session with operator, toPeer := session.toPeer ++ [] }, ?_, rfl, resolved⟩
  simp only [Session.step, found, processed, Option.bind_eq_bind, Option.bind_some]
  rfl

def commanded (operator peer : Node) (packet : Packet) : Session :=
  { Session.start operator peer with
    operator := { operator with
      parsers := fun _ => none
      commandTracker := { transactions := [{ seq := 0, packet, lastSent := 0 }] } }
    issued := [0]
    toPeer := [serialize packet] }

theorem run_commanded {operator peer : Node} {systemId componentId : UInt8}
    (outward : operator.transports (operator.determineRoutingTarget systemId componentId) = true) :
    Session.run (Session.start operator peer) [.track 0 (command systemId componentId), .transmit 0 true] =
      some (commanded operator peer (command systemId componentId).packet) := by
  let packet := (command systemId componentId).packet
  let tracked : Session := { commanded operator peer packet with sending := [packet], toPeer := [] }
  have first : Session.step (Session.start operator peer) (.track 0 (command systemId componentId)) =
    some tracked := rfl
  have routed : tracked.operator.sendPacket packet = some (_, serialize packet) := sendPacket_eq outward
  have found : tracked.sending[0]? = some packet := rfl
  rw [Session.run, Trace.run_cons, first, Option.bind_some, Trace.run_cons, step_transmit found routed]
  rfl

theorem commanded_acknowledged {operator peer : Node} {systemId componentId : UInt8}
    (back : peer.transports (peer.determineRoutingTarget systemId componentId) = true) :
    ∃ next, Session.step (commanded operator peer (command systemId componentId).packet) (.peerReceives 0 0) =
        some next ∧ next.toOperator = [ackFrame (received (command systemId componentId).packet)] ∧
      next.operator = (commanded operator peer (command systemId componentId).packet).operator ∧
      next.peer.dispatcher = peer.dispatcher := by
  let session := commanded operator peer (command systemId componentId).packet
  have idle : AllIdle session.peer := start_idle peer
  have processed := processRawBytes_local (idle 0).1 (command systemId componentId).magic (idle.passes 0 _)
    (command systemId componentId).short
  obtain ⟨unchanged, acked⟩ :=
    @handleComplete_command session.peer (received (command systemId componentId).packet) rfl back
  have found : session.toPeer[0]? = some (serialize (command systemId componentId).packet) := rfl
  refine ⟨_, step_peerReceives found processed, acked, rfl, ?_⟩
  show (session.peer.handleComplete _).1.dispatcher = _
  rw [unchanged]
  rfl

theorem exchange_accepted {operator peer : Node} {systemId componentId : UInt8}
    (outward : operator.transports (operator.determineRoutingTarget systemId componentId) = true)
    (back : peer.transports (peer.determineRoutingTarget systemId componentId) = true) :
    ∃ session, Session.run (Session.start operator peer) (exchange systemId componentId) = some session ∧
      session.Accepted 0 ∧ session.peer.dispatcher = peer.dispatcher := by
  obtain ⟨answered, third, frames, sameOperator, samePeer⟩ := @commanded_acknowledged operator peer _ _ back
  have idle : AllIdle answered.operator := by
    rw [sameOperator]
    exact fun _ => ⟨rfl, rfl⟩
  have found : answered.toOperator[0]? = some (ackFrame (received (command systemId componentId).packet)) := by
    rw [frames]
    rfl
  obtain ⟨final, fourth, keptPeer, resolved⟩ := @step_operatorReceives answered _ 0 0 idle found
  refine ⟨final, ?_, ?_, ?_⟩
  · have split : exchange systemId componentId =
        [.track 0 (command systemId componentId), .transmit 0 true] ++ [.peerReceives 0 0, .operatorReceives 0 0] :=
      rfl
    rw [Session.run, split, Trace.run_append, ← Session.run, run_commanded outward, Option.bind_some,
      Trace.run_cons, third, Option.bind_some, Trace.run_cons, fourth]
    rfl
  · rw [Session.Accepted, resolved, sameOperator]
    exact List.mem_singleton.mpr rfl
  · rw [keptPeer, samePeer]

theorem accepted_honest_iff (operator peer : Node) (connected : Connected operator peer) :
    (∀ actions session, Session.run (Session.start operator peer) actions = some session → Honest session) ↔
      Session.HasCallback peer := by
  constructor
  · intro honest
    by_contra none
    obtain ⟨systemId, componentId, outward, back⟩ := connected
    obtain ⟨session, ran, accepted, sameDispatcher⟩ := exchange_accepted outward back
    refine (honest _ session ran).silent ?_ 0 accepted
    rw [Session.HasCallback, sameDispatcher]
    exact none
  · intro callback actions session ran
    exact callback_honest callback ran

theorem accepted_honest_iff_line :
    let operator : Node := ({} : Node).addTransport 0
    let peer : Node := { operator with dispatcher := ({} : RoCommLinkDispatcher).subscribe Node.msgIdUserCommand (some 7) }
    (∀ actions session, Session.run (Session.start operator peer) actions = some session → Honest session) ↔
      Session.HasCallback peer :=
  accepted_honest_iff _ _ ⟨1, 1, rfl, rfl⟩

/-- A peer without subscriptions accepts the command all the same. -/
theorem accepted_without_callback :
    let node : Node := ({} : Node).addTransport 0
    ∃ actions session, Session.run (Session.start node node) actions = some session ∧ ¬Honest session := by
  intro node
  have route : node.transports (node.determineRoutingTarget 1 1) = true := rfl
  obtain ⟨session, ran, accepted, sameDispatcher⟩ := exchange_accepted route route
  refine ⟨exchange 1 1, session, ran, fun honest => honest.silent ?_ 0 accepted⟩
  rw [Session.HasCallback, sameDispatcher]
  rintro ⟨callback, subscribed⟩
  cases subscribed

end KnowledgeAcquisition.Proof.RoCommLink
