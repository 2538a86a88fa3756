import KnowledgeAcquisition.RoCommLink.Node

/-!
# A network of nodes

Nodes joined by transports as `UdpTransport` has them: `connect` fixes the one peer an interface sends to, a
datagram travels whole, and datagrams overtake each other or get lost. A node takes one datagram
at a time, as with one worker thread.
-/

namespace KnowledgeAcquisition.RoCommLink

structure Flight (ι : Type*) where
  destination : ι
  connectionId : UInt8
  bytes : List UInt8
  deriving DecidableEq, Repr

abbrev Wiring (ι : Type*) := ι → UInt8 → Option (ι × UInt8)

/-- `sent`, `completed` and `lost` are histories: the frames handed to a transport by `send_packet`, the packets
completed at each node, and the frames that no longer travel. -/
structure Network (ι : Type*) where
  nodes : ι → Node
  inFlight : List (Flight ι) := []
  sent : List (List UInt8) := []
  completed : List (ι × Packet) := []
  lost : List (List UInt8) := []

/-- `originate` is a call of `send_packet`. With `track` before it, and `giveUp` after it when the transport fails, it is
what `send_command_blocking` does. -/
inductive Turn (ι : Type*) where
  | track (now : Nat) (node : ι) (packet : Packet)
  | originate (node : ι) (packet : Packet)
  | giveUp (node : ι) (seq : UInt16)
  | checkTimeouts (now : Nat) (node : ι)
  | deliver (place : Nat)
  | lose (place : Nat)

namespace Network

variable {ι : Type*} (wiring : Wiring ι)

def put (node : ι) (network : Network ι) (interfaceId : UInt8) (bytes : List UInt8) : Network ι :=
  match wiring node interfaceId with
  | some (destination, connectionId) =>
      { network with inFlight := network.inFlight ++ [{ destination, connectionId, bytes }] }
  | none => { network with lost := network.lost ++ [bytes] }

def observe (node : ι) (network : Network ι) : Event → Network ι
  | .forward interfaceId bytes => network.put wiring node interfaceId bytes
  | .send interfaceId bytes => put wiring node { network with sent := network.sent ++ [bytes] } interfaceId bytes
  | .complete packet => { network with completed := network.completed ++ [(node, packet)] }
  | .invoke _ _ => network

def take (network : Network ι) (place : Nat) : Network ι :=
  { network with inFlight := network.inFlight.eraseIdx place }

def originate (node : ι) (network : Network ι) (packet : Packet) : Network ι :=
  match (network.nodes node).sendPacket packet with
  | none => network
  | some (interfaceId, bytes) => network.observe wiring node (.send interfaceId bytes)

variable [DecidableEq ι]

def setTracker (network : Network ι) (node : ι) (commandTracker : CommandTracker) : Network ι :=
  { network with nodes := Function.update network.nodes node { network.nodes node with commandTracker } }

def step (network : Network ι) : Turn ι → Network ι
  | .track now node packet =>
      match (network.nodes node).commandTracker.track now packet.header.sequence packet with
      | none => network
      | some commandTracker => network.setTracker node commandTracker
  | .originate node packet => network.originate wiring node packet
  | .giveUp node seq => network.setTracker node ((network.nodes node).commandTracker.resolve seq .failed)
  | .checkTimeouts now node =>
      let (commandTracker, retries) := (network.nodes node).commandTracker.checkTimeouts now
      retries.foldl (originate wiring node) (network.setTracker node commandTracker)
  | .deliver place =>
      match network.inFlight[place]? with
      | none => network
      | some flight =>
          let (node, events) :=
            (network.nodes flight.destination).processRawBytes flight.bytes flight.connectionId
          events.foldl (observe wiring flight.destination)
            { network.take place with nodes := Function.update network.nodes flight.destination node }
  | .lose place =>
      match network.inFlight[place]? with
      | none => network
      | some flight => { network.take place with lost := network.lost ++ [flight.bytes] }

def run (network : Network ι) (turns : List (Turn ι)) : Network ι := turns.foldl (step wiring) network

def Delivers : Network ι → List Nat → Prop
  | _, [] => True
  | network, place :: places =>
      place < network.inFlight.length ∧ Delivers (network.step wiring (.deliver place)) places

end Network

end KnowledgeAcquisition.RoCommLink
