import KnowledgeAcquisition.Proof.RoCommLink.Network

/-!
# Batches

The forwarding path sends the whole buffer it was given, once for each frame in it that is for another system. A
datagram of several such frames is multiplied at every gateway it passes.
-/

namespace KnowledgeAcquisition.Proof.RoCommLink
open KnowledgeAcquisition.RoCommLink RoCommLinkParser PacketSerializer Library Network

def rebuffer (whole : List UInt8) : Event → Event
  | .forward interfaceId _ => .forward interfaceId whole
  | .send interfaceId bytes => .send interfaceId bytes
  | .complete packet => .complete packet
  | .invoke callback packet => .invoke callback packet

theorem handleComplete_rebuffer (whole : List UInt8) (node : Node) (packet : Packet) :
    (node.handleComplete packet).2.map (rebuffer whole) = (node.handleComplete packet).2 := by
  obtain ⟨callbacks, events⟩ := handleComplete_events node packet
  have replied : (replies node packet).map (rebuffer whole) = replies node packet := by
    unfold replies
    split_ifs
    · cases node.sendPacket (Node.ackPacket packet .accepted) <;> rfl
    · rfl
  rw [events, List.map_append, replied]
  simp [rebuffer]

theorem handleResult_rebuffer (whole bytes : List UInt8) (node : Node) (result : ParseResult) :
    node.handleResult whole result =
      ((node.handleResult bytes result).1, (node.handleResult bytes result).2.map (rebuffer whole)) := by
  obtain ⟨status, packet⟩ := result
  cases packet with
  | none => cases status <;> rfl
  | some packet =>
      cases status with
      | processing => rfl
      | streamForwardByte =>
          simp only [Node.handleResult]
          split_ifs <;> rfl
      | complete => simp only [Node.handleResult, List.map_cons, handleComplete_rebuffer, rebuffer]

theorem feed_rebuffer (whole bytes : List UInt8) (connectionId : UInt8) (node : Node) (rest : List UInt8) :
    Transducer.feed (Node.processByte connectionId whole) node rest =
      ((Transducer.feed (Node.processByte connectionId bytes) node rest).1,
        (Transducer.feed (Node.processByte connectionId bytes) node rest).2.map (List.map (rebuffer whole))) := by
  induction rest generalizing node with
  | nil => rfl
  | cons byte rest ih =>
      have here : Node.processByte connectionId whole node byte =
          ((Node.processByte connectionId bytes node byte).1,
            (Node.processByte connectionId bytes node byte).2.map (rebuffer whole)) :=
        handleResult_rebuffer whole bytes _ _
      rw [Transducer.feed_cons, Transducer.feed_cons, here]
      dsimp only
      rw [ih]
      rfl

section Batch

variable {first node : Node} {connectionId ownId : UInt8}

def batched (first : Node) (ownId : UInt8) (packets : List Packet) (whole : List UInt8) : List Event :=
  packets.flatMap fun packet => (expected first ownId packet).map (rebuffer whole)

theorem Gateway.batch (gateway : Gateway first connectionId ownId node) (attached : Attached first)
    (whole : List UInt8) {packets : List Packet} (conforming : ∀ packet ∈ packets, Conforming packet) :
    (Transducer.feed (Node.processByte connectionId whole) node (packets.flatMap serialize)).2.flatten =
        batched first ownId packets whole ∧
      Gateway first connectionId ownId
        (Transducer.feed (Node.processByte connectionId whole) node (packets.flatMap serialize)).1 := by
  induction packets generalizing node with
  | nil => exact ⟨rfl, gateway⟩
  | cons packet packets ih =>
      have here := conforming packet List.mem_cons_self
      obtain ⟨events, -, next⟩ := gateway.process here.magic here.short fun _ => ⟨attached _ _, here.harmless⟩
      simp only [Node.processRawBytes, if_neg (serialize_ne_nil packet)] at events next
      have fed := feed_rebuffer whole (serialize packet) connectionId node (serialize packet)
      obtain ⟨later, final⟩ := ih next fun other member => conforming other (List.mem_cons_of_mem packet member)
      rw [List.flatMap_cons, Transducer.feed_append, fed]
      refine ⟨?_, final⟩
      rw [List.flatten_append, ← List.map_flatten, events, later]
      rfl

theorem Gateway.processBatch (gateway : Gateway first connectionId ownId node) (attached : Attached first)
    {packets : List Packet} (conforming : ∀ packet ∈ packets, Conforming packet) :
    (node.processRawBytes (packets.flatMap serialize) connectionId).2 =
        batched first ownId packets (packets.flatMap serialize) ∧
      Gateway first connectionId ownId (node.processRawBytes (packets.flatMap serialize) connectionId).1 := by
  have whole := gateway.batch attached (packets.flatMap serialize) conforming
  unfold Node.processRawBytes
  by_cases empty : packets.flatMap serialize = []
  · have none : packets = [] := by
      cases packets with
      | nil => rfl
      | cons packet packets =>
          rw [List.flatMap_cons, List.append_eq_nil_iff] at empty
          exact absurd empty.1 (serialize_ne_nil packet)
    subst none
    exact ⟨rfl, gateway⟩
  · rw [if_neg empty]
    exact whole

end Batch

/-! ## A storm -/

section Storm

variable {ι : Type*} {wiring : Wiring ι} {first : ι → Node} {ownId : ι → UInt8} {network : Network ι}
  {packets : List Packet}

/-- The packet is for none of the nodes, and each of them hands it on to a peer. -/
def Homeless (wiring : Wiring ι) (first : ι → Node) (ownId : ι → UInt8) (packet : Packet) : Prop :=
  ∀ node, packet.header.systemId ≠ ownId node ∧ (wiring node
    ((first node).determineRoutingTarget packet.header.systemId packet.header.componentId)).isSome

/-- Gateways between frames, with nothing under way but copies of one buffer. -/
structure Storming (wiring : Wiring ι) (first : ι → Node) (ownId : ι → UInt8) (whole : List UInt8)
    (network : Network ι) : Prop where
  gateways : ∀ node connectionId, Listens wiring node connectionId →
    Gateway (first node) connectionId (ownId node) (network.nodes node)
  copies : ∀ flight ∈ network.inFlight, Listens wiring flight.destination flight.connectionId ∧ flight.bytes = whole
  completed : network.completed = []

theorem batched_homeless (homeless : ∀ packet ∈ packets, Homeless wiring first ownId packet) (node : ι)
    (whole : List UInt8) : batched (first node) (ownId node) packets whole = packets.map fun packet =>
      .forward ((first node).determineRoutingTarget packet.header.systemId packet.header.componentId) whole := by
  unfold batched
  induction packets with
  | nil => rfl
  | cons packet packets ih =>
      have foreign := (homeless packet List.mem_cons_self node).1
      rw [List.flatMap_cons, ih fun other member => homeless other (List.mem_cons_of_mem packet member)]
      simp only [expected_eq, if_pos foreign]
      rfl

theorem forwarded_length (homeless : ∀ packet ∈ packets, Homeless wiring first ownId packet) (network : Network ι)
    (node : ι) (whole : List UInt8) :
    ((packets.map fun packet => Event.forward
        ((first node).determineRoutingTarget packet.header.systemId packet.header.componentId) whole).foldl
      (observe wiring node) network).inFlight.length = network.inFlight.length + packets.length := by
  induction packets generalizing network with
  | nil => rfl
  | cons packet packets ih =>
      obtain ⟨peer, wired⟩ := Option.isSome_iff_exists.mp (homeless packet List.mem_cons_self node).2
      rw [List.map_cons, List.foldl_cons, ih fun other member => homeless other (List.mem_cons_of_mem packet member)]
      simp only [Network.observe, Network.put, wired, List.length_append, List.length_cons, List.length_nil]
      omega

variable [DecidableEq ι]

theorem Storming.deliver (storming : Storming wiring first ownId (packets.flatMap serialize) network)
    (attached : ∀ node, Attached (first node)) (conforming : ∀ packet ∈ packets, Conforming packet)
    (homeless : ∀ packet ∈ packets, Homeless wiring first ownId packet) {place : Nat}
    (here : place < network.inFlight.length) :
    Storming wiring first ownId (packets.flatMap serialize) (network.step wiring (.deliver place)) ∧
      (network.step wiring (.deliver place)).inFlight.length + 1 = network.inFlight.length + packets.length := by
  have found := List.getElem?_eq_getElem here
  generalize network.inFlight[place] = flight at found
  obtain ⟨listens, bytes⟩ := storming.copies flight (List.mem_of_getElem? found)
  obtain ⟨events, gateway⟩ := (storming.gateways flight.destination flight.connectionId listens).processBatch
    (attached flight.destination) conforming
  have gateways := gateway.elsewhere (storming.gateways flight.destination)
  rw [batched_homeless homeless] at events
  simp only [Network.step, found, bytes, events]
  generalize ((network.nodes flight.destination).processRawBytes (packets.flatMap serialize)
    flight.connectionId).1 = after at gateways
  refine ⟨⟨?_, ?_, ?_⟩, ?_⟩
  · intro node connectionId heard
    rw [observed_nodes]
    by_cases same : node = flight.destination
    · subst same
      simpa using gateways connectionId heard
    · simpa [Function.update_of_ne same] using storming.gateways node connectionId heard
  · intro other member
    rcases observed_inFlight member with old | ⟨event, happened, interfaceId, given, wired⟩
    · exact storming.copies other (List.mem_of_mem_eraseIdx old)
    · obtain ⟨packet, -, rfl⟩ := List.mem_map.mp happened
      obtain ⟨rfl, frame⟩ := Prod.mk.inj (Option.some.inj given)
      exact ⟨⟨flight.destination, _, wired⟩, frame.symm⟩
  · rw [List.eq_nil_iff_forall_not_mem]
    intro done member
    rcases observed_completed member with old | ⟨-, happened⟩
    · have none : done ∈ network.completed := old
      simp [storming.completed] at none
    · obtain ⟨packet, -, wrong⟩ := List.mem_map.mp happened
      cases wrong
  · rw [forwarded_length homeless]
    have shorter := List.length_eraseIdx_of_lt here
    simp only [Network.take, shorter]
    omega

theorem Storming.delivers (storming : Storming wiring first ownId (packets.flatMap serialize) network)
    (attached : ∀ node, Attached (first node)) (conforming : ∀ packet ∈ packets, Conforming packet)
    (homeless : ∀ packet ∈ packets, Homeless wiring first ownId packet) {places : List Nat}
    (delivers : network.Delivers wiring places) :
    Storming wiring first ownId (packets.flatMap serialize) (network.run wiring (places.map .deliver)) ∧
      (network.run wiring (places.map .deliver)).inFlight.length + places.length =
        network.inFlight.length + places.length * packets.length := by
  induction places generalizing network with
  | nil => exact ⟨storming, by simp [Network.run]⟩
  | cons place places ih =>
      obtain ⟨here, later⟩ := delivers
      obtain ⟨next, grown⟩ := storming.deliver attached conforming homeless here
      obtain ⟨final, total⟩ := ih next later
      refine ⟨final, ?_⟩
      have turn : network.run wiring ((place :: places).map .deliver) =
          (network.step wiring (.deliver place)).run wiring (places.map .deliver) := rfl
      rw [turn, List.length_cons, Nat.succ_mul]
      omega

end Storm

end KnowledgeAcquisition.Proof.RoCommLink
