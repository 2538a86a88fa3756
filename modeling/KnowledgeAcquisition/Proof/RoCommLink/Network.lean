import KnowledgeAcquisition.Proof.RoCommLink.Gateway
import KnowledgeAcquisition.RoCommLink.Network
import Mathlib.Data.Fin.VecNotation
import Mathlib.Data.List.Perm.Basic

/-!
# Gateways in a network

Every node filters for its own system. Whatever the order of the deliveries, a frame handed to a transport is in one
place: under way, completed by its system, or lost. A frame for a system that is not there is never
completed, and nothing limits how often it is forwarded.
-/

namespace KnowledgeAcquisition.Proof.RoCommLink
open KnowledgeAcquisition.RoCommLink RoCommLinkParser PacketSerializer Library Network

section Frames

variable {ι : Type*} {wiring : Wiring ι} {network : Network ι} {node : ι} {other : List UInt8}

def frames (network : Network ι) : List (List UInt8) :=
  network.inFlight.map (·.bytes) ++ (network.completed.map (fun done => serialize done.2) ++ network.lost)

def passed : Event → List (List UInt8)
  | .forward _ bytes => [bytes]
  | .complete packet => [serialize packet]
  | .send _ _ => []
  | .invoke _ _ => []

def handed : Event → Option (UInt8 × List UInt8)
  | .forward interfaceId bytes => some (interfaceId, bytes)
  | .send interfaceId bytes => some (interfaceId, bytes)
  | .complete _ => none
  | .invoke _ _ => none

@[simp] theorem put_nodes (network : Network ι) (node : ι) (interfaceId : UInt8) (bytes : List UInt8) :
    (network.put wiring node interfaceId bytes).nodes = network.nodes := by
  unfold Network.put
  cases wiring node interfaceId <;> rfl

@[simp] theorem put_sent (network : Network ι) (node : ι) (interfaceId : UInt8) (bytes : List UInt8) :
    (network.put wiring node interfaceId bytes).sent = network.sent := by
  unfold Network.put
  cases wiring node interfaceId <;> rfl

@[simp] theorem put_completed (network : Network ι) (node : ι) (interfaceId : UInt8) (bytes : List UInt8) :
    (network.put wiring node interfaceId bytes).completed = network.completed := by
  unfold Network.put
  cases wiring node interfaceId <;> rfl

theorem count_put (network : Network ι) (node : ι) (interfaceId : UInt8) (bytes : List UInt8) :
    (frames (network.put wiring node interfaceId bytes)).count other =
      (frames network).count other + [bytes].count other := by
  unfold Network.put
  cases wiring node interfaceId <;> simp only [frames, List.map_append, List.map_cons, List.map_nil,
    List.count_append] <;> omega

theorem count_observe (wiring : Wiring ι) (other : List UInt8) (network : Network ι) (node : ι) (event : Event) :
    (frames (network.observe wiring node event)).count other + network.sent.count other =
      (frames network).count other + (network.observe wiring node event).sent.count other +
        (passed event).count other := by
  cases event with
  | forward interfaceId bytes =>
      simp only [Network.observe, count_put, put_sent, passed]
      omega
  | send interfaceId bytes =>
      simp only [Network.observe, count_put, put_sent, passed, List.count_append, List.count_nil]
      simp only [frames]
      omega
  | complete packet =>
      simp only [Network.observe, frames, passed, List.map_append, List.map_cons, List.map_nil, List.count_append]
      omega
  | invoke callback packet => simp [Network.observe, passed]

theorem count_observed (wiring : Wiring ι) (other : List UInt8) (network : Network ι) (node : ι) (events : List Event) :
    (frames (events.foldl (observe wiring node) network)).count other + network.sent.count other =
      (frames network).count other + (events.foldl (observe wiring node) network).sent.count other +
        (events.flatMap passed).count other := by
  induction events generalizing network with
  | nil => simp
  | cons event events ih =>
      have here := count_observe wiring other network node event
      have rest := ih (network.observe wiring node event)
      simp only [List.foldl_cons, List.flatMap_cons, List.count_append]
      omega

theorem observed_nodes (network : Network ι) (node : ι) (events : List Event) :
    (events.foldl (observe wiring node) network).nodes = network.nodes := by
  induction events generalizing network with
  | nil => rfl
  | cons event events ih =>
      rw [List.foldl_cons, ih]
      cases event <;> simp [Network.observe]

theorem observed_completed {events : List Event} {done : ι × Packet}
    (member : done ∈ (events.foldl (observe wiring node) network).completed) :
    done ∈ network.completed ∨ done.1 = node ∧ .complete done.2 ∈ events := by
  induction events generalizing network with
  | nil => exact Or.inl member
  | cons event events ih =>
      rcases ih member with earlier | ⟨here, later⟩
      · cases event with
        | complete packet =>
            rcases List.mem_append.mp earlier with old | new
            · exact Or.inl old
            · rw [List.mem_singleton.mp new]
              exact Or.inr ⟨rfl, List.mem_cons_self⟩
        | forward | send | invoke => simpa [Network.observe] using Or.inl earlier
      · exact Or.inr ⟨here, List.mem_cons_of_mem event later⟩

theorem put_inFlight {interfaceId : UInt8} {bytes : List UInt8} {flight : Flight ι}
    (member : flight ∈ (network.put wiring node interfaceId bytes).inFlight) : flight ∈ network.inFlight ∨
      wiring node interfaceId = some (flight.destination, flight.connectionId) ∧ flight.bytes = bytes := by
  unfold Network.put at member
  cases wired : wiring node interfaceId with
  | none =>
      rw [wired] at member
      exact Or.inl member
  | some peer =>
      rw [wired] at member
      rcases List.mem_append.mp member with old | new
      · exact Or.inl old
      · rw [List.mem_singleton.mp new]
        exact Or.inr ⟨rfl, rfl⟩

theorem observed_inFlight {events : List Event} {flight : Flight ι}
    (member : flight ∈ (events.foldl (observe wiring node) network).inFlight) : flight ∈ network.inFlight ∨
      ∃ event ∈ events, ∃ interfaceId, handed event = some (interfaceId, flight.bytes) ∧
        wiring node interfaceId = some (flight.destination, flight.connectionId) := by
  induction events generalizing network with
  | nil => exact Or.inl member
  | cons event events ih =>
      rcases ih member with earlier | ⟨sender, later, interfaceId, bytes, wired⟩
      · cases event with
        | complete packet => exact Or.inl earlier
        | invoke callback packet => exact Or.inl earlier
        | forward interfaceId bytes | send interfaceId bytes =>
            rcases put_inFlight earlier with old | ⟨wired, rfl⟩
            · exact Or.inl old
            · exact Or.inr ⟨_, List.mem_cons_self, interfaceId, rfl, wired⟩
      · exact Or.inr ⟨sender, List.mem_cons_of_mem event later, interfaceId, bytes, wired⟩

theorem count_take {place : Nat} {flight : Flight ι} (found : network.inFlight[place]? = some flight)
    (other : List UInt8) :
    (frames network).count other = [flight.bytes].count other + (frames (network.take place)).count other := by
  obtain ⟨bound, rfl⟩ := List.getElem?_eq_some_iff.mp found
  have perm := (List.getElem_cons_eraseIdx_perm bound).map (·.bytes)
  have counted := perm.count_eq other
  rw [List.map_cons, ← List.singleton_append, List.count_append] at counted
  simp only [frames, Network.take, List.count_append]
  omega

end Frames

/-! ## What a gateway does with a frame -/

/-- A packet that gateways pass on unharmed, and its acknowledgement as well when it is a command. -/
structure Conforming (packet : Packet) : Prop where
  magic : Marker packet.header.magic
  short : packet.payload.length ≤ 255
  harmless : Harmless packet
  acknowledged : packet.header.msgId = Node.msgIdUserCommand → Harmless (Node.ackPacket packet .accepted)

instance (packet : Packet) : Decidable (Conforming packet) :=
  decidable_of_iff (Marker packet.header.magic ∧ packet.payload.length ≤ 255 ∧ Harmless packet ∧
      (packet.header.msgId = Node.msgIdUserCommand → Harmless (Node.ackPacket packet .accepted)))
    ⟨fun ⟨magic, short, harmless, acknowledged⟩ => ⟨magic, short, harmless, acknowledged⟩,
      fun ⟨magic, short, harmless, acknowledged⟩ => ⟨magic, short, harmless, acknowledged⟩⟩

def replies (node : Node) (packet : Packet) : List Event :=
  if packet.header.msgId = Node.msgIdUserCommand then
    match node.sendPacket (Node.ackPacket packet .accepted) with
    | none => []
    | some (interfaceId, bytes) => [.send interfaceId bytes]
  else []

theorem handleComplete_events (node : Node) (packet : Packet) : ∃ callbacks : List Nat,
    (node.handleComplete packet).2 = callbacks.map (fun callback => .invoke callback packet) ++ replies node packet := by
  unfold Node.handleComplete replies
  by_cases isAck : packet.header.msgId = Node.msgIdCommandAck
  · have notCommand : packet.header.msgId ≠ Node.msgIdUserCommand := by
      rw [isAck]
      decide
    rw [if_pos isAck, if_neg notCommand]
    refine ⟨[], ?_⟩
    cases CommandAckPayload.ofBytes packet.payload <;> rfl
  · rw [if_neg isAck]
    refine ⟨(node.dispatcher.dispatch packet).1, ?_⟩
    by_cases isCommand : packet.header.msgId = Node.msgIdUserCommand
    · have accepts : (node.dispatch packet).2 = true := rfl
      simp only [if_pos isCommand, accepts, if_true]
      cases node.sendPacket (Node.ackPacket packet .accepted) with
      | none => simp [Node.dispatch]
      | some sent => rfl
    · simp only [if_neg isCommand, Node.dispatch, List.append_nil]

theorem sendPacket_some {node : Node} {packet : Packet} {interfaceId : UInt8} {bytes : List UInt8}
    (sent : node.sendPacket packet = some (interfaceId, bytes)) :
    interfaceId = node.determineRoutingTarget packet.header.systemId packet.header.componentId ∧
      bytes = serialize packet := by
  simp only [Node.sendPacket] at sent
  split_ifs at sent
  obtain ⟨target, frame⟩ := Prod.mk.inj (Option.some.inj sent)
  exact ⟨target.symm, frame.symm⟩

theorem Conforming.ack {packet : Packet} (conforming : Conforming packet)
    (isCommand : packet.header.msgId = Node.msgIdUserCommand) : Conforming (Node.ackPacket packet .accepted) := by
  refine ⟨Or.inl rfl, ?_, conforming.acknowledged isCommand, ?_⟩
  · show 5 ≤ 255
    simp
  · have differs : Node.msgIdCommandAck ≠ Node.msgIdUserCommand := by decide
    exact fun wrong => absurd wrong differs

section Expected

variable {first : Node} {ownId : UInt8} {packet : Packet} {event : Event}

theorem handed_cases (member : event ∈ expected first ownId packet) {interfaceId : UInt8} {bytes : List UInt8}
    (given : handed event = some (interfaceId, bytes)) : ∃ next,
      bytes = serialize next ∧ interfaceId =
        first.determineRoutingTarget packet.header.systemId packet.header.componentId ∧
      (packet.header.systemId ≠ ownId ∧ next = packet ∨ packet.header.systemId = ownId ∧
        packet.header.msgId = Node.msgIdUserCommand ∧ next = Node.ackPacket packet .accepted) := by
  rw [expected_eq] at member
  by_cases foreign : packet.header.systemId ≠ ownId
  · rw [if_pos foreign] at member
    obtain rfl := List.mem_singleton.mp member
    obtain ⟨rfl, rfl⟩ := Prod.mk.inj (Option.some.inj given)
    exact ⟨packet, rfl, rfl, Or.inl ⟨foreign, rfl⟩⟩
  · rw [if_neg foreign] at member
    obtain ⟨callbacks, events⟩ := handleComplete_events first (received packet)
    rw [events] at member
    rcases List.mem_cons.mp member with rfl | handled
    · cases given
    · rcases List.mem_append.mp handled with invoked | replied
      · obtain ⟨callback, -, rfl⟩ := List.mem_map.mp invoked
        cases given
      · unfold replies at replied
        split_ifs at replied with isCommand
        · cases sent : first.sendPacket (Node.ackPacket (received packet) .accepted) with
          | none => simp [sent] at replied
          | some frame =>
              obtain ⟨target, frameBytes⟩ := frame
              obtain ⟨rfl, rfl⟩ := sendPacket_some sent
              rw [sent] at replied
              obtain rfl := List.mem_singleton.mp replied
              obtain ⟨rfl, rfl⟩ := Prod.mk.inj (Option.some.inj given)
              exact ⟨_, rfl, rfl, Or.inr ⟨not_not.mp foreign, isCommand, rfl⟩⟩
        · cases replied

theorem completed_own {done : Packet} (member : .complete done ∈ expected first ownId packet) :
    packet.header.systemId = ownId ∧ done = received packet := by
  rw [expected_eq] at member
  by_cases foreign : packet.header.systemId ≠ ownId
  · rw [if_pos foreign] at member
    cases List.mem_singleton.mp member
  · rw [if_neg foreign] at member
    obtain ⟨callbacks, events⟩ := handleComplete_events first (received packet)
    rw [events] at member
    rcases List.mem_cons.mp member with same | handled
    · injection same with same
      exact ⟨not_not.mp foreign, same⟩
    · rcases List.mem_append.mp handled with invoked | replied
      · obtain ⟨callback, -, wrong⟩ := List.mem_map.mp invoked
        cases wrong
      · unfold replies at replied
        split_ifs at replied
        · cases sent : first.sendPacket (Node.ackPacket (received packet) .accepted) <;> simp [sent] at replied
        · cases replied

theorem passed_expected (first : Node) (ownId : UInt8) (packet : Packet) :
    (expected first ownId packet).flatMap passed = [serialize packet] := by
  rw [expected_eq]
  by_cases foreign : packet.header.systemId ≠ ownId
  · rw [if_pos foreign]
    rfl
  · rw [if_neg foreign]
    obtain ⟨callbacks, events⟩ := handleComplete_events first (received packet)
    have silent : (callbacks.map fun callback => Event.invoke callback (received packet)).flatMap passed = [] := by
      simp [List.flatMap_map, passed]
    have replied : (replies first (received packet)).flatMap passed = [] := by
      unfold replies
      split_ifs
      · cases first.sendPacket (Node.ackPacket (received packet) .accepted) <;> rfl
      · rfl
    rw [events, List.flatMap_cons, List.flatMap_append, silent, replied]
    rfl

end Expected

theorem parser_setParser_other (node : Node) (parser : RoCommLinkParser) {connectionId other : UInt8}
    (apart : other ≠ connectionId) : (node.setParser connectionId parser).parser other = node.parser other := by
  simp [Node.parser, Node.setParser, apart]

theorem handleResult_parsers (whole : List UInt8) (node : Node) (result : ParseResult) :
    (node.handleResult whole result).1.parsers = node.parsers := by
  obtain ⟨status, packet⟩ := result
  cases packet with
  | none => cases status <;> rfl
  | some packet =>
      cases status with
      | processing => rfl
      | streamForwardByte => rfl
      | complete =>
          show (node.handleComplete packet).1.parsers = node.parsers
          unfold Node.handleComplete
          split_ifs
          · cases CommandAckPayload.ofBytes packet.payload <;> rfl
          · simp only
            cases node.sendPacket _ <;> rfl
          · rfl

theorem transactions_resolve (tracker : CommandTracker) (seq : UInt16) (result : CommandResult) :
    (tracker.resolve seq result).transactions ⊆ tracker.transactions := by
  unfold CommandTracker.resolve
  cases tracker.find seq with
  | none => exact List.Subset.refl _
  | some _ => exact List.filter_subset_self _

theorem handleResult_transactions (whole : List UInt8) (node : Node) (result : ParseResult) :
    (node.handleResult whole result).1.commandTracker.transactions ⊆ node.commandTracker.transactions := by
  obtain ⟨status, packet⟩ := result
  cases packet with
  | none => cases status <;> exact List.Subset.refl _
  | some packet =>
      cases status with
      | processing => exact List.Subset.refl _
      | streamForwardByte => exact List.Subset.refl _
      | complete =>
          show (node.handleComplete packet).1.commandTracker.transactions ⊆ _
          unfold Node.handleComplete
          split_ifs
          · cases CommandAckPayload.ofBytes packet.payload with
            | none => exact List.Subset.refl _
            | some ack => exact transactions_resolve _ _ _
          · simp only
            cases node.sendPacket _ <;> exact List.Subset.refl _
          · exact List.Subset.refl _

theorem processRawBytes_transactions (node : Node) (bytes : List UInt8) (connectionId : UInt8) :
    (node.processRawBytes bytes connectionId).1.commandTracker.transactions ⊆ node.commandTracker.transactions := by
  let Within := fun current : Node => current.commandTracker.transactions ⊆ node.commandTracker.transactions
  have keeps : ∀ current byte, Within current →
      Within (Node.processByte connectionId bytes current byte).1 ∧ True := by
    intro current byte within
    have handled := handleResult_transactions bytes
      (current.setParser connectionId ((current.parser connectionId).parseByte byte).1)
      ((current.parser connectionId).parseByte byte).2
    exact ⟨List.Subset.trans handled within, trivial⟩
  unfold Node.processRawBytes
  by_cases empty : bytes = []
  · rw [if_pos empty]
    exact List.Subset.refl _
  · rw [if_neg empty]
    exact (@Transducer.feed_invariant _ _ _ _ Within (fun _ => True) keeps node (List.Subset.refl _) bytes).1

theorem processRawBytes_elsewhere (node : Node) (bytes : List UInt8) {connectionId other : UInt8}
    (apart : other ≠ connectionId) :
    (node.processRawBytes bytes connectionId).1.parser other = node.parser other := by
  have step : ∀ current byte, (Node.processByte connectionId bytes current byte).1.parser other =
      current.parser other := by
    intro current byte
    simp only [Node.processByte, Node.parser, handleResult_parsers]
    exact parser_setParser_other current _ apart
  unfold Node.processRawBytes
  by_cases empty : bytes = []
  · rw [if_pos empty]
  · rw [if_neg empty]
    let Kept := fun current : Node => current.parser other = node.parser other
    have keeps : ∀ current byte, Kept current →
        Kept (Node.processByte connectionId bytes current byte).1 ∧ True := by
      intro current byte kept
      exact ⟨(step current byte).trans kept, trivial⟩
    exact (@Transducer.feed_invariant _ _ _ _ Kept (fun _ => True) keeps node rfl bytes).1

theorem Gateway.elsewhere {first node : Node} {connectionId ownId : UInt8} {heard : UInt8 → Prop} {bytes : List UInt8}
    (processed : Gateway first connectionId ownId (node.processRawBytes bytes connectionId).1)
    (before : ∀ other, heard other → Gateway first other ownId node) (other : UInt8) (listens : heard other) :
    Gateway first other ownId (node.processRawBytes bytes connectionId).1 := by
  by_cases same : other = connectionId
  · rw [same]
    exact processed
  · have kept := processRawBytes_elsewhere node bytes same
    exact ⟨processed.links, by rw [kept]; exact (before other listens).idle,
      by rw [kept]; exact (before other listens).filter⟩

/-! ## Every turn keeps the accounts -/

section Turns

variable {ι : Type*} {wiring : Wiring ι} {first : ι → Node} {ownId : ι → UInt8} {known : UInt8 → Prop}
  {network : Network ι}

def Listens (wiring : Wiring ι) (node : ι) (connectionId : UInt8) : Prop :=
  ∃ peer interfaceId, wiring peer interfaceId = some (node, connectionId)

/-- Wherever a node routes to, it has a transport. -/
def Attached (node : Node) : Prop :=
  ∀ systemId componentId, node.transports (node.determineRoutingTarget systemId componentId) = true

def Carries (wiring : Wiring ι) (known : UInt8 → Prop) (flight : Flight ι) : Prop :=
  Listens wiring flight.destination flight.connectionId ∧
    ∃ packet, Conforming packet ∧ known packet.header.systemId ∧ flight.bytes = serialize packet

def Tracked (known : UInt8 → Prop) (tracker : CommandTracker) : Prop :=
  ∀ transaction ∈ tracker.transactions,
    Conforming transaction.packet ∧ known transaction.packet.header.systemId

/-- Gateways between frames, and each frame sent in one place. -/
structure Proper (wiring : Wiring ι) (first : ι → Node) (ownId : ι → UInt8) (known : UInt8 → Prop)
    (network : Network ι) : Prop where
  gateways : ∀ node connectionId, Listens wiring node connectionId →
    Gateway (first node) connectionId (ownId node) (network.nodes node)
  tracked : ∀ node, Tracked known (network.nodes node).commandTracker
  carried : ∀ flight ∈ network.inFlight, Carries wiring known flight
  home : ∀ done ∈ network.completed, done.2.header.systemId = ownId done.1
  balanced : network.sent.Perm (frames network)

structure Gateways (wiring : Wiring ι) (first : ι → Node) (ownId : ι → UInt8) : Prop where
  untracked : ∀ node, (first node).commandTracker = {}
  idle : ∀ node connectionId, Listens wiring node connectionId →
    ((first node).parser connectionId).state = .waitStartOfTransmission
  filter : ∀ node connectionId, Listens wiring node connectionId →
    ((first node).parser connectionId).earlyFilter = some (gatewayFilter (ownId node))

theorem Gateways.proper (gateways : Gateways wiring first ownId) :
    Proper wiring first ownId known { nodes := first } where
  gateways node connectionId listens :=
    ⟨⟨rfl, rfl, rfl⟩, gateways.idle node connectionId listens, gateways.filter node connectionId listens⟩
  tracked node := by
    simp [Tracked, gateways.untracked node]
  carried := nofun
  home := nofun
  balanced := List.Perm.refl []

theorem Tracked.track {tracker tracker' : CommandTracker} (before : Tracked known tracker) {now : Nat} {packet : Packet}
    (conforming : Conforming packet) (addressed : known packet.header.systemId)
    (tracked : tracker.track now packet.header.sequence packet = some tracker') : Tracked known tracker' := by
  unfold CommandTracker.track at tracked
  cases found : tracker.find packet.header.sequence with
  | some _ => simp [found] at tracked
  | none =>
      rw [found] at tracked
      obtain rfl := Option.some.inj tracked
      intro transaction member
      rcases List.mem_append.mp member with old | new
      · exact before transaction old
      · rw [List.mem_singleton.mp new]
        exact ⟨conforming, addressed⟩

theorem Tracked.checkTimeouts {tracker : CommandTracker} (before : Tracked known tracker) (now : Nat) :
    Tracked known (tracker.checkTimeouts now).1 ∧
      ∀ packet ∈ (tracker.checkTimeouts now).2, Conforming packet ∧ known packet.header.systemId := by
  constructor
  · intro transaction member
    obtain ⟨checked, inside, here⟩ := List.mem_flatMap.mp member
    obtain ⟨waiting, present, rfl⟩ := List.mem_map.mp inside
    unfold CommandTracker.checkTransaction at here
    split_ifs at here
    · rw [List.mem_singleton.mp here]
      exact before waiting present
    · cases here
    · rw [List.mem_singleton.mp here]
      exact before waiting present
  · intro packet member
    obtain ⟨checked, inside, here⟩ := List.mem_flatMap.mp member
    obtain ⟨waiting, present, rfl⟩ := List.mem_map.mp inside
    unfold CommandTracker.checkTransaction at here
    split_ifs at here
    · rw [List.mem_singleton.mp here]
      exact before waiting present
    · cases here
    · cases here

theorem Proper.originate (proper : Proper wiring first ownId known network) (node : ι) {packet : Packet}
    (conforming : Conforming packet) (addressed : known packet.header.systemId) :
    Proper wiring first ownId known (network.originate wiring node packet) := by
  cases sent : (network.nodes node).sendPacket packet with
  | none => simpa only [Network.originate, sent] using proper
  | some frame =>
      obtain ⟨interfaceId, bytes⟩ := frame
      obtain ⟨-, rfl⟩ := sendPacket_some sent
      simp only [Network.originate, sent]
      constructor
      · simpa [Network.observe] using proper.gateways
      · simpa [Network.observe] using proper.tracked
      · intro flight member
        rcases put_inFlight member with old | ⟨wired, frame⟩
        · exact proper.carried flight old
        · exact ⟨⟨node, interfaceId, wired⟩, packet, conforming, addressed, frame⟩
      · simpa [Network.observe] using proper.home
      · rw [List.perm_iff_count]
        intro other
        have before := proper.balanced.count_eq other
        have events := count_observe wiring other network node
          (.send interfaceId (serialize packet))
        simp only [passed, List.count_nil] at events
        omega

theorem Proper.originateAll (proper : Proper wiring first ownId known network) (node : ι) {packets : List Packet}
    (conforming : ∀ packet ∈ packets, Conforming packet ∧ known packet.header.systemId) :
    Proper wiring first ownId known (packets.foldl (Network.originate wiring node) network) := by
  induction packets generalizing network with
  | nil => exact proper
  | cons packet packets ih =>
      obtain ⟨here, addressed⟩ := conforming packet List.mem_cons_self
      exact ih (proper.originate node here addressed) fun other member =>
        conforming other (List.mem_cons_of_mem packet member)

variable [DecidableEq ι]

theorem Proper.delivers (proper : Proper wiring first ownId known network) (attached : ∀ node, Attached (first node))
    {place : Nat} {flight : Flight ι} (found : network.inFlight[place]? = some flight) :
    ∃ packet node, Conforming packet ∧ known packet.header.systemId ∧ flight.bytes = serialize packet ∧
      (∀ connectionId, Listens wiring flight.destination connectionId →
        Gateway (first flight.destination) connectionId (ownId flight.destination) node) ∧
      Tracked known node.commandTracker ∧ network.step wiring (.deliver place) =
        (expected (first flight.destination) (ownId flight.destination) packet).foldl
          (observe wiring flight.destination)
          { network.take place with nodes := Function.update network.nodes flight.destination node } := by
  obtain ⟨listens, packet, conforming, addressed, bytes⟩ := proper.carried flight (List.mem_of_getElem? found)
  have forwardable : Forwardable (first flight.destination) (ownId flight.destination) packet :=
    fun _ => ⟨attached flight.destination _ _, conforming.harmless⟩
  obtain ⟨events, -, gateway⟩ := (proper.gateways flight.destination flight.connectionId listens).process
    conforming.magic conforming.short forwardable
  refine ⟨packet, ((network.nodes flight.destination).processRawBytes (serialize packet) flight.connectionId).1,
    conforming, addressed, bytes, ?_, ?_, ?_⟩
  · exact gateway.elsewhere (proper.gateways flight.destination)
  · intro transaction member
    exact proper.tracked flight.destination transaction (processRawBytes_transactions _ _ _ member)
  · simp only [Network.step, found, bytes, events]

theorem Proper.deliver (proper : Proper wiring first ownId known network) (attached : ∀ node, Attached (first node))
    (place : Nat) : Proper wiring first ownId known (network.step wiring (.deliver place)) := by
  cases found : network.inFlight[place]? with
  | none => simpa only [Network.step, found] using proper
  | some flight =>
      obtain ⟨packet, node, conforming, addressed, bytes, gateways, tracked, stepped⟩ := proper.delivers attached found
      rw [stepped]
      constructor
      · intro other connectionId listens
        rw [observed_nodes]
        by_cases same : other = flight.destination
        · subst same
          simpa using gateways connectionId listens
        · simpa [Function.update_of_ne same] using proper.gateways other connectionId listens
      · intro other
        rw [observed_nodes]
        by_cases same : other = flight.destination
        · subst same
          simpa using tracked
        · simpa [Function.update_of_ne same] using proper.tracked other
      · intro other member
        rcases observed_inFlight member with old | ⟨event, happened, interfaceId, given, wired⟩
        · exact proper.carried other (List.mem_of_mem_eraseIdx old)
        · obtain ⟨next, frame, -, which⟩ := handed_cases happened given
          refine ⟨⟨flight.destination, interfaceId, wired⟩, next, ?_, ?_, frame⟩
          · rcases which with ⟨-, rfl⟩ | ⟨-, isCommand, rfl⟩
            · exact conforming
            · exact conforming.ack isCommand
          · rcases which with ⟨-, rfl⟩ | ⟨-, -, rfl⟩ <;> exact addressed
      · intro done member
        rcases observed_completed member with old | ⟨here, happened⟩
        · exact proper.home done old
        · obtain ⟨own, same⟩ := completed_own happened
          rw [here, same]
          exact own
      · rw [List.perm_iff_count]
        intro other
        have before := proper.balanced.count_eq other
        have taken := count_take found other
        have events := count_observed wiring other
          { network.take place with nodes := Function.update network.nodes flight.destination node }
          flight.destination (expected (first flight.destination) (ownId flight.destination) packet)
        rw [passed_expected, ← bytes] at events
        simp only [frames, Network.take] at before taken events ⊢
        omega

theorem Proper.lose (proper : Proper wiring first ownId known network) (place : Nat) :
    Proper wiring first ownId known (network.step wiring (.lose place)) := by
  cases found : network.inFlight[place]? with
  | none => simpa only [Network.step, found] using proper
  | some flight =>
      simp only [Network.step, found]
      refine ⟨proper.gateways, proper.tracked, fun other member => proper.carried other (List.mem_of_mem_eraseIdx member),
        proper.home, ?_⟩
      rw [List.perm_iff_count]
      intro other
      have before := proper.balanced.count_eq other
      have taken := count_take found other
      simp only [frames, Network.take, List.count_append] at before taken ⊢
      omega

theorem Proper.setTracker (proper : Proper wiring first ownId known network) (node : ι) {tracker : CommandTracker}
    (tracked : Tracked known tracker) : Proper wiring first ownId known (network.setTracker node tracker) := by
  refine ⟨?_, ?_, proper.carried, proper.home, proper.balanced⟩
  · intro other connectionId listens
    have before := proper.gateways other connectionId listens
    simp only [Network.setTracker]
    by_cases same : other = node
    · subst same
      rw [Function.update_self]
      exact ⟨⟨before.links.transports, before.links.routingTable, before.links.dispatcher⟩, before.idle,
        before.filter⟩
    · rw [Function.update_of_ne same]
      exact before
  · intro other
    simp only [Network.setTracker]
    by_cases same : other = node
    · subst same
      rw [Function.update_self]
      exact tracked
    · rw [Function.update_of_ne same]
      exact proper.tracked other

/-- The application sends conforming packets to known systems only. -/
def Conform (known : UInt8 → Prop) (turns : List (Turn ι)) : Prop :=
  ∀ node packet, (.originate node packet ∈ turns ∨ ∃ now, .track now node packet ∈ turns) →
    Conforming packet ∧ known packet.header.systemId

omit [DecidableEq ι] in
theorem Conform.tail {turn : Turn ι} {turns : List (Turn ι)} (conform : Conform known (turn :: turns)) :
    Conform known turns := by
  intro node packet which
  apply conform node packet
  rcases which with originated | ⟨now, tracked⟩
  · exact Or.inl (List.mem_cons_of_mem turn originated)
  · exact Or.inr ⟨now, List.mem_cons_of_mem turn tracked⟩

theorem Proper.step (proper : Proper wiring first ownId known network) (attached : ∀ node, Attached (first node))
    {turn : Turn ι} {turns : List (Turn ι)} (conform : Conform known (turn :: turns)) :
    Proper wiring first ownId known (network.step wiring turn) := by
  cases turn with
  | originate node packet =>
      obtain ⟨conforming, addressed⟩ := conform node packet (Or.inl List.mem_cons_self)
      exact proper.originate node conforming addressed
  | track now node packet =>
      obtain ⟨conforming, addressed⟩ := conform node packet (Or.inr ⟨now, List.mem_cons_self⟩)
      cases tracked : (network.nodes node).commandTracker.track now packet.header.sequence packet with
      | none => simpa only [Network.step, tracked] using proper
      | some tracker =>
          simp only [Network.step, tracked]
          exact proper.setTracker node ((proper.tracked node).track conforming addressed tracked)
  | giveUp node seq =>
      apply proper.setTracker node
      exact fun transaction member => proper.tracked node transaction (transactions_resolve _ _ _ member)
  | checkTimeouts now node =>
      obtain ⟨tracked, retried⟩ := (proper.tracked node).checkTimeouts now
      exact (proper.setTracker node tracked).originateAll node retried
  | deliver place => exact proper.deliver attached place
  | lose place => exact proper.lose place

theorem Proper.run (proper : Proper wiring first ownId known network) (attached : ∀ node, Attached (first node))
    {turns : List (Turn ι)} (conform : Conform known turns) :
    Proper wiring first ownId known (network.run wiring turns) := by
  induction turns generalizing network with
  | nil => exact proper
  | cons turn turns ih => exact ih (proper.step attached conform) conform.tail

end Turns

end KnowledgeAcquisition.Proof.RoCommLink
