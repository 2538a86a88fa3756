import KnowledgeAcquisition.Proof.RoCommLink.Processing

/-!
# Gateway forwarding

A node whose early filter pivots to `ForwardActive` on every packet for another system. The filter fires
before the payload, the parser falls back to waiting for a start marker one byte later, and the rest of
the frame is scanned as if it were noise. Forwarding is exact as long as that rest is noise.
-/

namespace KnowledgeAcquisition.Proof.RoCommLink
open KnowledgeAcquisition.RoCommLink RoCommLinkParser PacketSerializer Library

def gatewayFilter (ownId : UInt8) : EarlyFilter := fun packet state =>
  if packet.header.systemId ≠ ownId then (true, packet, .forwardActive) else (false, packet, state)

theorem gatewayFilter_passes (ownId : UInt8) : Passes (some (gatewayFilter ownId)) ownId := by
  intro filter found packet state own
  obtain rfl := Option.some.inj found
  simp [gatewayFilter, own]

section Foreign

variable {parser : RoCommLinkParser} {packet : Packet} {ownId : UInt8}

theorem gatewayFilter_pivots (filter : parser.earlyFilter = some (gatewayFilter ownId))
    (foreign : parser.currentPacket.header.systemId ≠ ownId) :
    parser.executeEarlyFilter = (true, { parser with state := .forwardActive }) := by
  unfold executeEarlyFilter
  rw [filter]
  simp only [gatewayFilter, if_pos foreign]

/-- What is left of the frame when the filter has fired holds no start marker. Without a payload the
filter fires in the middle of the checksum and nothing is left. -/
def Harmless (packet : Packet) : Prop :=
  packet.payload = [] ∨ ∀ byte ∈ packet.payload.tail ++ trailer packet, ¬Marker byte

instance (packet : Packet) : Decidable (Harmless packet) := inferInstanceAs (Decidable (_ ∨ _))

def ForwardsOnce (parser : RoCommLinkParser) (packet : Packet) : Prop :=
  ∃ final before after got, parse parser (serialize packet) = (final, List.replicate before processing ++
      { status := .streamForwardByte, packet := some got } :: List.replicate after processing) ∧
    got.header.systemId = packet.header.systemId ∧ got.header.componentId = packet.header.componentId ∧
    final.state = .waitStartOfTransmission ∧ final.earlyFilter = parser.earlyFilter

variable (idle : parser.state = .waitStartOfTransmission) (magic : Marker packet.header.magic)
  (filter : parser.earlyFilter = some (gatewayFilter ownId)) (foreign : packet.header.systemId ≠ ownId)

include idle magic filter foreign

theorem parse_foreign_empty (empty : packet.payload = []) : ForwardsOnce parser packet := by
  let high := highByte (calculateChecksum (body packet))
  let waiting : RoCommLinkParser :=
    { filled parser packet with
      currentPacket := { (filled parser packet).currentPacket with checksum := high.toUInt16 <<< 8 }
      bytesRead := 1 }
  have asked : waiting.executeEarlyFilter = (true, { waiting with state := .forwardActive }) :=
    gatewayFilter_pivots filter foreign
  have first : parseByte (filled parser packet) high = ({ waiting with state := .forwardActive }, processing) := by
    have step : parseByte (filled parser packet) high = (waiting.executeEarlyFilter.2, processing) := rfl
    rw [step, asked]
  let final : RoCommLinkParser :=
    { waiting with
      state := .waitStartOfTransmission, currentPacket := { waiting.currentPacket with payload := [] } }
  have pivot : parseByte { waiting with state := .forwardActive } (lowByte (calculateChecksum (body packet))) =
      (final, { status := .streamForwardByte, packet := some waiting.currentPacket }) := rfl
  have ending := Transducer.feed_step first (Transducer.feed_step pivot (Transducer.feed_nil final))
  have rest := Transducer.feed_step (parseByte_empty parser empty) ending
  refine ⟨final, 11, 0, waiting.currentPacket, ?_, rfl, rfl, rfl, rfl⟩
  have whole := Transducer.feed_then (parse_opening idle magic) rest
  rw [serialize_eq, empty, List.nil_append]
  exact whole

theorem parse_foreign_payload (nonempty : packet.payload ≠ []) (short : packet.payload.length ≤ 255)
    (quiet : ∀ byte ∈ packet.payload.tail ++ trailer packet, ¬Marker byte) : ForwardsOnce parser packet := by
  have asked : (headed parser packet).executeEarlyFilter =
      (true, { headed parser packet with state := .forwardActive }) := gatewayFilter_pivots filter foreign
  have length := parseByte_length parser packet
  rw [if_pos (low_pos nonempty short), asked] at length
  obtain ⟨byte, bytes, payload⟩ := List.exists_cons_of_ne_nil nonempty
  let got := (headed parser packet).currentPacket
  let final : RoCommLinkParser := { headed parser packet with state := .waitStartOfTransmission }
  have pivot : parseByte { headed parser packet with state := .forwardActive } byte =
      (final, { status := .streamForwardByte, packet := some got }) := rfl
  rw [payload, List.tail_cons] at quiet
  have noise := @parse_noise final rfl _ quiet
  have rest := Transducer.feed_step length (Transducer.feed_step pivot noise)
  refine ⟨final, 10, (bytes ++ trailer packet).length, got, ?_, rfl, rfl, rfl, rfl⟩
  have whole := Transducer.feed_then (parse_opening idle magic) rest
  rw [serialize_eq, payload]
  exact whole

theorem parse_foreign (short : packet.payload.length ≤ 255) (harmless : Harmless packet) :
    ForwardsOnce parser packet := by
  by_cases empty : packet.payload = []
  · exact parse_foreign_empty idle magic filter foreign empty
  · exact parse_foreign_payload idle magic filter foreign empty short (harmless.resolve_left empty)

end Foreign

structure SameLinks (node node' : Node) : Prop where
  transports : node'.transports = node.transports
  routingTable : node'.routingTable = node.routingTable
  dispatcher : node'.dispatcher = node.dispatcher

/-! ## What is to happen to a datagram -/

def chosenInterface (node : Node) (systemId componentId : UInt8) : UInt8 :=
  let rule (component : UInt8) := node.routingTable (UInt16.ofNat (256 * systemId.toNat + component.toNat))
  ((rule componentId).or (rule 0)).getD 0

def acknowledgement (packet : Packet) : Packet :=
  { header := { magic := 0x5A, version := 1, systemId := packet.header.systemId,
                componentId := packet.header.componentId, msgId := 0x00FF, sequence := packet.header.sequence,
                payloadLen := 5 }
    payload := [1, 0, lowByte packet.header.sequence, highByte packet.header.sequence, 0] }

def invocations (node : Node) (packet : Packet) : List Event :=
  if packet.header.msgId = 0x00FF then []
  else (node.dispatcher.registry packet.header.msgId).filterMap fun callback =>
    callback.map fun called => .invoke called packet

def acknowledgements (node : Node) (packet : Packet) : List Event :=
  if packet.header.msgId = 0x0001 ∧
      node.transports (chosenInterface node packet.header.systemId packet.header.componentId) = true then
    [.send (chosenInterface node packet.header.systemId packet.header.componentId) (serialize (acknowledgement packet))]
  else []

/-- Either forwarded as it is, or completed and dispatched here. -/
def expected (node : Node) (ownId : UInt8) (packet : Packet) : List Event :=
  if packet.header.systemId ≠ ownId then
    [.forward (chosenInterface node packet.header.systemId packet.header.componentId) (serialize packet)]
  else .complete (received packet) :: (invocations node (received packet) ++ acknowledgements node (received packet))

def answered (tracker : CommandTracker) (packet : Packet) : CommandTracker :=
  match packet.payload with
  | _ :: _ :: low :: high :: result :: _ =>
      let seq := UInt16.ofNat (256 * high.toNat + low.toNat)
      if ∃ transaction ∈ tracker.transactions, transaction.seq = seq then
        { transactions := tracker.transactions.filter (·.seq ≠ seq)
          settled := tracker.settled ++ [(seq, .ofByte result)] }
      else tracker
  | _ => tracker

def answersHere (ownId : UInt8) (packet : Packet) : Bool := packet.header.systemId = ownId ∧ packet.header.msgId = 0x00FF

theorem word_eq (high low : UInt8) : high.toUInt16 <<< 8 ||| low.toUInt16 = UInt16.ofNat (256 * high.toNat + low.toNat) := by
  have high_lt := high.toNat_lt
  have low_lt := low.toNat_lt
  have shifted : high.toNat <<< (UInt16.toNat 8 % 16) % 2 ^ 16 = high.toNat <<< 8 := by
    show high.toNat <<< 8 % 2 ^ 16 = high.toNat <<< 8
    rw [Nat.shiftLeft_eq]
    omega
  apply UInt16.toNat.inj
  rw [UInt16.toNat_or, UInt16.toNat_shiftLeft, UInt8.toNat_toUInt16, UInt8.toNat_toUInt16, UInt16.toNat_ofNat', shifted,
    ← Nat.shiftLeft_add_eq_or_of_lt (by omega), Nat.shiftLeft_eq]
  omega

theorem determineRoutingTarget_eq (node : Node) (systemId componentId : UInt8) :
    node.determineRoutingTarget systemId componentId = chosenInterface node systemId componentId := by
  have zero : systemId.toUInt16 <<< 8 ||| 0x00 = UInt16.ofNat (256 * systemId.toNat + (0 : UInt8).toNat) :=
    word_eq systemId 0
  rw [Node.determineRoutingTarget, Node.compoundKey, word_eq, zero]
  unfold chosenInterface
  dsimp only
  cases node.routingTable (UInt16.ofNat (256 * systemId.toNat + componentId.toNat)) with
  | some interfaceId => rfl
  | none =>
      cases node.routingTable (UInt16.ofNat (256 * systemId.toNat + (0 : UInt8).toNat)) with
      | some interfaceId => rfl
      | none => rfl

theorem handleComplete_dispatches (node : Node) (packet : Packet) :
    (node.handleComplete packet).2 = invocations node packet ++ acknowledgements node packet := by
  unfold Node.handleComplete invocations acknowledgements
  by_cases isAck : packet.header.msgId = Node.msgIdCommandAck
  · have ack : packet.header.msgId = 0x00FF := isAck
    have notCommand : ¬ packet.header.msgId = 0x0001 := by
      rw [ack]
      decide
    rw [if_pos isAck, if_pos ack, if_neg fun both => notCommand both.1]
    cases CommandAckPayload.ofBytes packet.payload with
    | none => rfl
    | some ack => rfl
  · have notAck : ¬ packet.header.msgId = 0x00FF := isAck
    have called : (node.dispatch packet).1 = (node.dispatcher.registry packet.header.msgId).filterMap
        fun callback => callback.map fun called => .invoke called packet := by
      simp only [Node.dispatch, RoCommLinkDispatcher.dispatch, List.map_filterMap, id]
    rw [if_neg isAck, if_neg notAck, ← called]
    by_cases isCommand : packet.header.msgId = Node.msgIdUserCommand
    · have command : packet.header.msgId = 0x0001 := isCommand
      have frame : Node.ackPacket packet .accepted = acknowledgement packet := by
        have low : lowByte 0x0001 = 1 := by decide
        have high : highByte 0x0001 = 0 := by decide
        unfold Node.ackPacket acknowledgement
        simp only [command, CommandAckPayload.bytes, low, high]
        rfl
      have target : node.determineRoutingTarget (acknowledgement packet).header.systemId
          (acknowledgement packet).header.componentId =
            chosenInterface node packet.header.systemId packet.header.componentId := determineRoutingTarget_eq node _ _
      have accepts : (node.dispatch packet).2 = true := rfl
      simp only [if_pos isCommand, accepts, if_true, frame, Node.sendPacket, target]
      by_cases attached : node.transports (chosenInterface node packet.header.systemId packet.header.componentId) = true
      · rw [if_pos attached, if_pos ⟨command, attached⟩]
      · rw [if_neg attached, if_neg fun both => attached both.2, List.append_nil]
    · have notCommand : ¬ packet.header.msgId = 0x0001 := isCommand
      rw [if_neg isCommand, if_neg fun both => notCommand both.1, List.append_nil]

theorem resolve_answers (tracker : CommandTracker) {packet : Packet} {ack : CommandAckPayload}
    (read : CommandAckPayload.ofBytes packet.payload = some ack) :
    tracker.resolve ack.targetSequence (.ofByte ack.result) = answered tracker packet := by
  unfold answered
  split
  · rename_i first second low high result rest payload
    rw [payload] at read
    obtain rfl := Option.some.inj read
    simp only [word_eq]
    generalize UInt16.ofNat (256 * high.toNat + low.toNat) = seq
    unfold CommandTracker.resolve
    cases found : tracker.find seq with
    | none =>
        have absent : ¬ ∃ transaction ∈ tracker.transactions, transaction.seq = seq := by
          rintro ⟨transaction, member, same⟩
          simpa [same] using List.find?_eq_none.mp found transaction member
        rw [if_neg absent]
    | some transaction =>
        have present : ∃ transaction ∈ tracker.transactions, transaction.seq = seq :=
          ⟨transaction, List.mem_of_find?_eq_some found, by simpa using List.find?_some found⟩
        rw [if_pos present]
  · rename_i short
    unfold CommandAckPayload.ofBytes at read
    split at read
    · rename_i first second low high result rest payload
      exact absurd payload (short first second low high result rest)
    · cases read

theorem unread_answers (tracker : CommandTracker) {packet : Packet}
    (unread : CommandAckPayload.ofBytes packet.payload = none) : answered tracker packet = tracker := by
  unfold answered
  split
  · rename_i payload
    rw [payload] at unread
    cases unread
  · rfl

theorem handleComplete_tracks (node : Node) (packet : Packet) : (node.handleComplete packet).1.commandTracker =
    if packet.header.msgId = 0x00FF then answered node.commandTracker packet else node.commandTracker := by
  unfold Node.handleComplete
  by_cases isAck : packet.header.msgId = Node.msgIdCommandAck
  · have ack : packet.header.msgId = 0x00FF := isAck
    rw [if_pos isAck, if_pos ack]
    cases read : CommandAckPayload.ofBytes packet.payload with
    | none => exact (unread_answers node.commandTracker read).symm
    | some ack => exact resolve_answers node.commandTracker read
  · have notAck : ¬ packet.header.msgId = 0x00FF := isAck
    rw [if_neg isAck, if_neg notAck]
    by_cases isCommand : packet.header.msgId = Node.msgIdUserCommand
    · rw [if_pos isCommand]
      dsimp only
      split
      · rfl
      · rfl
    · rw [if_neg isCommand]

theorem expected_eq (node : Node) (ownId : UInt8) (packet : Packet) : expected node ownId packet =
    if packet.header.systemId ≠ ownId then
      [.forward (node.determineRoutingTarget packet.header.systemId packet.header.componentId) (serialize packet)]
    else .complete (received packet) :: (node.handleComplete (received packet)).2 := by
  rw [expected, handleComplete_dispatches, determineRoutingTarget_eq]

section Links

variable {node node' : Node}

theorem SameLinks.target (same : SameLinks node node') (systemId componentId : UInt8) :
    node'.determineRoutingTarget systemId componentId = node.determineRoutingTarget systemId componentId := by
  rw [Node.determineRoutingTarget, same.routingTable]
  rfl

theorem SameLinks.events (same : SameLinks node node') (packet : Packet) :
    (node'.handleComplete packet).2 = (node.handleComplete packet).2 := by
  have calls : node'.dispatch packet = node.dispatch packet := by
    rw [Node.dispatch, same.dispatcher]
    rfl
  have routes : ∀ ack, node'.sendPacket ack = node.sendPacket ack := by
    intro ack
    simp only [Node.sendPacket, same.target, same.transports]
  unfold Node.handleComplete
  simp only [calls, routes]
  by_cases isAck : packet.header.msgId = Node.msgIdCommandAck
  · rw [if_pos isAck, if_pos isAck]
    cases CommandAckPayload.ofBytes packet.payload <;> rfl
  · rw [if_neg isAck, if_neg isAck]
    by_cases isCommand : packet.header.msgId = Node.msgIdUserCommand
    · rw [if_pos isCommand, if_pos isCommand]
      cases node.sendPacket _ <;> rfl
    · rw [if_neg isCommand, if_neg isCommand]

theorem SameLinks.expected (same : SameLinks node node') (ownId : UInt8) (packet : Packet) :
    RoCommLink.expected node' ownId packet = RoCommLink.expected node ownId packet := by
  simp only [expected_eq, same.target, same.events]

theorem handleComplete_links (node : Node) (packet : Packet) :
    SameLinks node (node.handleComplete packet).1 := by
  unfold Node.handleComplete
  split_ifs
  · cases CommandAckPayload.ofBytes packet.payload <;> exact ⟨rfl, rfl, rfl⟩
  · simp only
    cases node.sendPacket _ <;> exact ⟨rfl, rfl, rfl⟩
  · exact ⟨rfl, rfl, rfl⟩

end Links

structure Gateway (first : Node) (connectionId ownId : UInt8) (node : Node) : Prop where
  links : SameLinks first node
  idle : (node.parser connectionId).state = .waitStartOfTransmission
  filter : (node.parser connectionId).earlyFilter = some (gatewayFilter ownId)

/-- A datagram for another system has a transport to go to and leaves nothing but noise behind. -/
def Forwardable (node : Node) (ownId : UInt8) (packet : Packet) : Prop :=
  packet.header.systemId ≠ ownId →
    node.transports (node.determineRoutingTarget packet.header.systemId packet.header.componentId) = true ∧
    Harmless packet

section Gateway

variable {first node : Node} {connectionId ownId : UInt8} {packet : Packet}

theorem Gateway.process (gateway : Gateway first connectionId ownId node) (magic : Marker packet.header.magic)
    (short : packet.payload.length ≤ 255) (forwardable : Forwardable first ownId packet) :
    (node.processRawBytes (serialize packet) connectionId).2 = expected first ownId packet ∧
      (node.processRawBytes (serialize packet) connectionId).1.commandTracker =
        (if answersHere ownId packet then answered node.commandTracker packet else node.commandTracker) ∧
      Gateway first connectionId ownId (node.processRawBytes (serialize packet) connectionId).1 := by
  obtain ⟨links, idle, filter⟩ := gateway
  rw [← links.expected]
  by_cases foreign : packet.header.systemId ≠ ownId
  · obtain ⟨attached, harmless⟩ := forwardable foreign
    rw [← links.target, ← links.transports] at attached
    obtain ⟨final, before, after, got, parsed, sameSystem, sameComponent, finalIdle, finalFilter⟩ :=
      parse_foreign idle magic filter foreign short harmless
    have acted : node.handleResult (serialize packet) { status := .streamForwardByte, packet := some got } =
        (node, expected node ownId packet) := by
      simp only [Node.handleResult, sameSystem, sameComponent, expected_eq, if_pos foreign, attached, if_true]
    have elsewhere : answersHere ownId packet = false := decide_eq_false fun both => foreign both.1
    rw [processRawBytes_single (serialize_ne_nil packet) parsed, acted, elsewhere]
    refine ⟨rfl, rfl, ⟨links.transports, links.routingTable, links.dispatcher⟩, ?_, ?_⟩
    · rw [parser_setParser, finalIdle]
    · rw [parser_setParser, finalFilter, filter]
  · have own : packet.header.systemId = ownId := not_not.mp foreign
    have passes : Passes (node.parser connectionId).earlyFilter packet.header.systemId := by
      rw [filter, own]
      exact gatewayFilter_passes ownId
    have kept := handleComplete_links node (received packet)
    rw [processRawBytes_local idle magic passes short]
    refine ⟨by rw [expected_eq, if_neg foreign], ?_, ⟨?_, ?_, ?_⟩, ?_, ?_⟩
    · have tracked := handleComplete_tracks node (received packet)
      have here : (answersHere ownId packet = true) = ((received packet).header.msgId = 0x00FF) := by
        simp [answersHere, own, received]
      simp only [here]
      exact tracked
    · exact kept.transports.trans links.transports
    · exact kept.routingTable.trans links.routingTable
    · exact kept.dispatcher.trans links.dispatcher
    · rw [parser_setParser]
      rfl
    · rw [parser_setParser]
      exact filter

theorem Gateway.processAll (gateway : Gateway first connectionId ownId node) {packets : List Packet}
    (magic : ∀ packet ∈ packets, Marker packet.header.magic)
    (short : ∀ packet ∈ packets, packet.payload.length ≤ 255)
    (forwardable : ∀ packet ∈ packets, Forwardable first ownId packet) :
    (node.processAll connectionId (packets.map serialize)).2 = packets.flatMap (expected first ownId) ∧
      (node.processAll connectionId (packets.map serialize)).1.commandTracker =
        (packets.filter (answersHere ownId)).foldl answered node.commandTracker := by
  induction packets generalizing node with
  | nil => exact ⟨rfl, rfl⟩
  | cons packet packets ih =>
      obtain ⟨here, tracked, next⟩ := gateway.process (magic packet List.mem_cons_self)
        (short packet List.mem_cons_self) (forwardable packet List.mem_cons_self)
      obtain ⟨rest, trackedRest⟩ := ih next (fun other member => magic other (List.mem_cons_of_mem packet member))
        (fun other member => short other (List.mem_cons_of_mem packet member))
        (fun other member => forwardable other (List.mem_cons_of_mem packet member))
      constructor
      · rw [List.flatMap_cons, ← rest, ← here]
        simp only [Node.processAll, List.map_cons, Transducer.feed_cons, List.flatten_cons]
      · have last : (node.processAll connectionId ((packet :: packets).map serialize)).1 =
            ((node.processRawBytes (serialize packet) connectionId).1.processAll connectionId
              (packets.map serialize)).1 := by
          simp only [Node.processAll, List.map_cons, Transducer.feed_cons]
        rw [last, trackedRest, tracked, List.filter_cons]
        split
        · rfl
        · rfl

end Gateway

theorem gateway_forwards_exactly (node : Node) (connectionId ownId : UInt8)
    (idle : (node.parser connectionId).state = .waitStartOfTransmission)
    (filter : (node.parser connectionId).earlyFilter = some (gatewayFilter ownId)) (packets : List Packet)
    (magic : ∀ packet ∈ packets, Marker packet.header.magic)
    (short : ∀ packet ∈ packets, packet.payload.length ≤ 255)
    (forwardable : ∀ packet ∈ packets, Forwardable node ownId packet) :
    (node.processAll connectionId (packets.map serialize)).2 = packets.flatMap (expected node ownId) ∧
      (node.processAll connectionId (packets.map serialize)).1.commandTracker =
        (packets.filter (answersHere ownId)).foldl answered node.commandTracker := by
  have gateway : Gateway node connectionId ownId node := ⟨⟨rfl, rfl, rfl⟩, idle, filter⟩
  exact gateway.processAll magic short forwardable

def testGateway : Node :=
  ((((({} : Node).addTransport 0).addTransport 1).addRoutingRule 5 1 1).addRoutingRule 1 1 0).setParser 0
    { earlyFilter := some (gatewayFilter 2) }

theorem gateway_forwards_exactly_test :
    let command : Packet := { header := { systemId := 5, componentId := 1, msgId := 1 }, payload := [10, 20, 30] }
    let own : Packet := { header := { systemId := 2, msgId := 1, sequence := 3 }, payload := [0x5A] }
    let ack : Packet := { header := { systemId := 2, msgId := 0xFF }, payload := [1, 0, 4, 0, 0] }
    let gateway : Node :=
      { testGateway with
        dispatcher := ({} : RoCommLinkDispatcher).subscribe 1 (some 7)
        commandTracker := { transactions := [{ seq := 4, packet := command, lastSent := 0 }] } }
    (gateway.processAll 0 ([command, own, ack].map serialize)).2 =
        [.forward 1 (serialize command), .complete (received own), .invoke 7 (received own),
          .send 0 (serialize (acknowledgement own)), .complete (received ack)] ∧
      (gateway.processAll 0 ([command, own, ack].map serialize)).1.commandTracker =
        { transactions := [], settled := [(4, .accepted)] } := by
  intro command own ack gateway
  have exact_run := gateway_forwards_exactly gateway 0 2 rfl rfl [command, own, ack] (by decide) (by decide) (by
    intro packet member _
    simp only [List.mem_cons, List.not_mem_nil, or_false] at member
    rcases member with rfl | rfl | rfl <;> decide +kernel)
  refine ⟨exact_run.1.trans ?_, exact_run.2.trans ?_⟩
  · decide +kernel
  · decide +kernel

/-- A start marker in the payload of a forwarded datagram swallows the next datagram, which was for
the gateway itself. -/
theorem gateway_loses_datagram :
    let command : Packet := { header := { systemId := 5, componentId := 1, msgId := 1 }, payload := [10, 0x5A] }
    let status : Packet := { header := { systemId := 2, msgId := 9 }, payload := [7] }
    (testGateway.processAll 0 ([command, status].map serialize)).2 ≠
      [command, status].flatMap (expected testGateway 2) := by
  decide +kernel

end KnowledgeAcquisition.Proof.RoCommLink
