import KnowledgeAcquisition.Proof.RoCommLink.Network
import KnowledgeAcquisition.Proof.RoCommLink.Session
import Mathlib.Algebra.Order.BigOperators.Group.List
import Mathlib.Algebra.Group.Action.Defs
import Mathlib.Algebra.Order.Ring.Nat

/-!
# Deliveries that end

Where every route leads nearer to the system it is for, the frames under way weigh less after each delivery,
and all of them get home. An acknowledgement carries the system that sends it, not the
one that asked, so that it comes back to its sender.
-/

namespace KnowledgeAcquisition.Proof.RoCommLink
open KnowledgeAcquisition.RoCommLink RoCommLinkParser PacketSerializer Library Network

def systemOf (bytes : List UInt8) : UInt8 := bytes.getD 2 0
def componentOf (bytes : List UInt8) : UInt8 := bytes.getD 3 0

def CommandFrame (bytes : List UInt8) : Prop :=
  bytes.getD 4 0 = highByte Node.msgIdUserCommand ∧ bytes.getD 5 0 = lowByte Node.msgIdUserCommand

instance (bytes : List UInt8) : Decidable (CommandFrame bytes) := inferInstanceAs (Decidable (_ ∧ _))

theorem commandFrame_iff (packet : Packet) :
    CommandFrame (serialize packet) ↔ packet.header.msgId = Node.msgIdUserCommand := by
  constructor
  · intro ⟨high, low⟩
    have joined := join_bytes packet.header.msgId
    rw [show highByte packet.header.msgId = _ from high, show lowByte packet.header.msgId = _ from low,
      join_bytes] at joined
    exact joined.symm
  · intro same
    have bytes : (serialize packet).getD 4 0 = highByte packet.header.msgId ∧
        (serialize packet).getD 5 0 = lowByte packet.header.msgId := ⟨rfl, rfl⟩
    rwa [same] at bytes

section Weights

variable {ι : Type*} {wiring : Wiring ι} {hops : ι → UInt8 → UInt8 → Nat} {bound : Nat}

/-- How often a frame can still be delivered. A command may end in an acknowledgement. -/
def flightWeight (hops : ι → UInt8 → UInt8 → Nat) (bound : Nat) (flight : Flight ι) : Nat :=
  hops flight.destination (systemOf flight.bytes) (componentOf flight.bytes) + 1 +
    if CommandFrame flight.bytes then bound else 0

def weight (hops : ι → UInt8 → UInt8 → Nat) (bound : Nat) (network : Network ι) : Nat :=
  (network.inFlight.map (flightWeight hops bound)).sum

def load (wiring : Wiring ι) (hops : ι → UInt8 → UInt8 → Nat) (bound : Nat) (node : ι) (event : Event) : Nat :=
  match handed event with
  | none => 0
  | some (interfaceId, bytes) =>
      match wiring node interfaceId with
      | none => 0
      | some (destination, connectionId) => flightWeight hops bound { destination, connectionId, bytes }

theorem flightWeight_serialize (hops : ι → UInt8 → UInt8 → Nat) (bound : Nat) (destination : ι) (connectionId : UInt8) (packet : Packet) :
    flightWeight hops bound { destination, connectionId, bytes := serialize packet } =
      hops destination packet.header.systemId packet.header.componentId + 1 +
        if packet.header.msgId = Node.msgIdUserCommand then bound else 0 := by
  simp only [flightWeight, commandFrame_iff]
  rfl

theorem weight_put (network : Network ι) (node : ι) (interfaceId : UInt8) (bytes : List UInt8) :
    weight hops bound (network.put wiring node interfaceId bytes) = weight hops bound network +
      match wiring node interfaceId with
      | none => 0
      | some (destination, connectionId) => flightWeight hops bound { destination, connectionId, bytes } := by
  unfold Network.put
  cases wiring node interfaceId <;> simp [weight]

theorem weight_observed (network : Network ι) (node : ι) (events : List Event) :
    weight hops bound (events.foldl (observe wiring node) network) =
      weight hops bound network + (events.map (load wiring hops bound node)).sum := by
  induction events generalizing network with
  | nil => simp
  | cons event events ih =>
      have here : weight hops bound (network.observe wiring node event) =
          weight hops bound network + load wiring hops bound node event := by
        cases event with
        | forward interfaceId bytes => exact weight_put network node interfaceId bytes
        | send interfaceId bytes => exact weight_put _ node interfaceId bytes
        | complete packet => rfl
        | invoke callback packet => rfl
      rw [List.foldl_cons, ih, here, List.map_cons, List.sum_cons]
      omega

theorem observed_lost {network : Network ι} {node : ι} {events : List Event} (wired : ∀ event ∈ events,
    ∀ interfaceId bytes, handed event = some (interfaceId, bytes) → (wiring node interfaceId).isSome) :
    (events.foldl (observe wiring node) network).lost = network.lost := by
  induction events generalizing network with
  | nil => rfl
  | cons event events ih =>
      have rest := @ih (network.observe wiring node event)
        (fun other member => wired other (List.mem_cons_of_mem event member))
      rw [List.foldl_cons, rest]
      cases event with
      | complete packet => rfl
      | invoke callback packet => rfl
      | forward interfaceId bytes | send interfaceId bytes =>
          obtain ⟨peer, joined⟩ := Option.isSome_iff_exists.mp (wired _ List.mem_cons_self interfaceId bytes rfl)
          simp [Network.observe, Network.put, joined]

theorem weight_take {network : Network ι} {place : Nat} {flight : Flight ι}
    (found : network.inFlight[place]? = some flight) :
    weight hops bound network = flightWeight hops bound flight + weight hops bound (network.take place) := by
  obtain ⟨short, rfl⟩ := List.getElem?_eq_some_iff.mp found
  have perm := (List.getElem_cons_eraseIdx_perm short).map (flightWeight hops bound)
  simpa [weight, Network.take] using perm.sum_eq.symm

end Weights

section Homewards

variable {ι : Type*} {wiring : Wiring ι} {first : ι → Node} {ownId : ι → UInt8} {network : Network ι}
  {hops : ι → UInt8 → UInt8 → Nat} {bound : Nat}

def Present (ownId : ι → UInt8) (systemId : UInt8) : Prop := ∃ node, ownId node = systemId

/-- Routes to a system that is present are wired, and lead nearer to it from everywhere else. -/
structure Leads (wiring : Wiring ι) (first : ι → Node) (ownId : ι → UInt8) (hops : ι → UInt8 → UInt8 → Nat)
    (bound : Nat) : Prop where
  within : ∀ node systemId componentId, hops node systemId componentId < bound
  onward : ∀ node systemId componentId, Present ownId systemId → ∃ peer connectionId,
    wiring node ((first node).determineRoutingTarget systemId componentId) = some (peer, connectionId) ∧
      (systemId ≠ ownId node → hops peer systemId componentId < hops node systemId componentId)

theorem Leads.load_replies (leads : Leads wiring first ownId hops bound) (node : ι) (packet : Packet)
    (present : Present ownId packet.header.systemId) :
    ((replies (first node) packet).map (load wiring hops bound node)).sum ≤
      if packet.header.msgId = Node.msgIdUserCommand then bound else 0 := by
  unfold replies
  by_cases isCommand : packet.header.msgId = Node.msgIdUserCommand
  · rw [if_pos isCommand, if_pos isCommand]
    cases sent : (first node).sendPacket (Node.ackPacket packet .accepted) with
    | none => simp
    | some frame =>
        obtain ⟨interfaceId, bytes⟩ := frame
        obtain ⟨rfl, rfl⟩ := sendPacket_some sent
        obtain ⟨peer, connectionId, wired, -⟩ :=
          leads.onward node packet.header.systemId packet.header.componentId present
        have near := leads.within peer packet.header.systemId packet.header.componentId
        have loaded : load wiring hops bound node (.send
            ((first node).determineRoutingTarget packet.header.systemId packet.header.componentId)
            (serialize (Node.ackPacket packet .accepted))) =
            hops peer packet.header.systemId packet.header.componentId + 1 + 0 := by
          have notCommand : (Node.ackPacket packet .accepted).header.msgId ≠ Node.msgIdUserCommand := by
            show Node.msgIdCommandAck ≠ Node.msgIdUserCommand
            decide
          have weighed := flightWeight_serialize hops bound peer connectionId
            (Node.ackPacket packet .accepted)
          rw [if_neg notCommand] at weighed
          simp only [load, handed, Node.ackPacket] at wired weighed ⊢
          rw [wired]
          exact weighed
        refine (le_of_eq (List.sum_singleton)).trans ?_
        exact loaded.le.trans near
  · simp [isCommand]

theorem Leads.load_expected (leads : Leads wiring first ownId hops bound) (node : ι) (connectionId : UInt8)
    {packet : Packet} (present : Present ownId packet.header.systemId) :
    ((expected (first node) (ownId node) packet).map (load wiring hops bound node)).sum <
      flightWeight hops bound { destination := node, connectionId, bytes := serialize packet } := by
  rw [flightWeight_serialize]
  rw [expected_eq]
  by_cases foreign : packet.header.systemId ≠ ownId node
  · obtain ⟨peer, other, wired, nearer⟩ :=
      leads.onward node packet.header.systemId packet.header.componentId present
    have weighed := flightWeight_serialize hops bound peer other packet
    have closer := nearer foreign
    rw [if_pos foreign]
    simp only [List.map_cons, List.map_nil, List.sum_cons, List.sum_nil, load, handed, wired, weighed]
    omega
  · obtain ⟨callbacks, events⟩ := handleComplete_events (first node) (received packet)
    have silent : ((callbacks.map fun callback => Event.invoke callback (received packet)).map
        (load wiring hops bound node)).sum = 0 := by
      simp [List.map_map, Function.comp_def, load, handed]
    have replied := leads.load_replies node (received packet) present
    have completed : load wiring hops bound node (.complete (received packet)) = 0 := rfl
    have sameId : (received packet).header.msgId = packet.header.msgId := rfl
    rw [if_neg foreign, List.map_cons, List.sum_cons, events, List.map_append, List.sum_append, silent, completed]
    rw [sameId] at replied
    omega

theorem Leads.wired (leads : Leads wiring first ownId hops bound) {node : ι} {packet : Packet}
    (present : Present ownId packet.header.systemId) {event : Event}
    (member : event ∈ expected (first node) (ownId node) packet) {interfaceId : UInt8} {bytes : List UInt8}
    (given : handed event = some (interfaceId, bytes)) : (wiring node interfaceId).isSome := by
  obtain ⟨next, -, rfl, -⟩ := handed_cases member given
  obtain ⟨peer, connectionId, wired, -⟩ :=
    leads.onward node packet.header.systemId packet.header.componentId present
  rw [wired]
  rfl

variable [DecidableEq ι]

theorem Leads.deliver (leads : Leads wiring first ownId hops bound)
    (proper : Proper wiring first ownId (Present ownId) network) (attached : ∀ node, Attached (first node))
    {place : Nat} (here : place < network.inFlight.length) :
    weight hops bound (network.step wiring (.deliver place)) < weight hops bound network ∧
      (network.step wiring (.deliver place)).lost = network.lost := by
  have found := List.getElem?_eq_getElem here
  obtain ⟨packet, node, conforming, present, bytes, -, -, stepped⟩ := proper.delivers attached found
  have before : weight hops bound network = _ := weight_take found
  have lighter := leads.load_expected network.inFlight[place].destination network.inFlight[place].connectionId
    present
  rw [← bytes] at lighter
  rw [stepped]
  constructor
  · rw [weight_observed, before, Nat.add_comm]
    exact Nat.add_lt_add_right lighter _
  · exact observed_lost fun event member interfaceId frame => leads.wired present member

theorem Leads.delivers (leads : Leads wiring first ownId hops bound)
    (proper : Proper wiring first ownId (Present ownId) network) (attached : ∀ node, Attached (first node))
    {places : List Nat} (delivers : network.Delivers wiring places) :
    places.length + weight hops bound (network.run wiring (places.map .deliver)) ≤ weight hops bound network ∧
      (network.run wiring (places.map .deliver)).lost = network.lost := by
  induction places generalizing network with
  | nil => exact ⟨by simp [Network.run], rfl⟩
  | cons place places ih =>
      obtain ⟨here, later⟩ := delivers
      obtain ⟨lighter, kept⟩ := leads.deliver proper attached here
      obtain ⟨shorter, same⟩ := ih (proper.deliver attached place) later
      simp only [Network.run, List.map_cons, List.foldl_cons, List.length_cons] at shorter same ⊢
      exact ⟨by omega, same.trans kept⟩

end Homewards

section Unanswered

variable {ι : Type*} [DecidableEq ι] {wiring : Wiring ι} {first : ι → Node} {ownId : ι → UInt8} {network : Network ι}
  {operator : ι}

end Unanswered

end KnowledgeAcquisition.Proof.RoCommLink
