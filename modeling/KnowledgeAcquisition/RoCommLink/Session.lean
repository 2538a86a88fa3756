import KnowledgeAcquisition.Library.Trace
import KnowledgeAcquisition.RoCommLink.Node

/-!
# A command session

An operator that issues commands with `send_command_blocking` and a peer that processes what arrives, over
a network that keeps every frame ever sent and may hand any of them over at any time, any number of
times or never. `process_raw_bytes`, the tracker calls and a `send_packet` are one step each.
-/

namespace KnowledgeAcquisition.RoCommLink
open Library

structure Session where
  operator : Node
  peer : Node
  /-- Commands tracked and not yet sent: between the two halves of `send_command_blocking`. -/
  sending : List Packet := []
  issued : List UInt16 := []
  toPeer : List (List UInt8) := []
  toOperator : List (List UInt8) := []
  invoked : List (Nat × Packet) := []

namespace Session

inductive Action where
  | subscribe (msgId : UInt16) (cb : MessageCallback)
  | track (now : Nat) (command : Datagram)
  | transmit (command : Nat) (sent : Bool)
  | checkTimeouts (now : Nat)
  | peerReceives (frame : Nat) (interfaceId : UInt8)
  | operatorReceives (frame : Nat) (interfaceId : UInt8)

def sentFrame : Event → Option (List UInt8)
  | .send _ bytes => some bytes
  | _ => none

def invocation : Event → Option (Nat × Packet)
  | .invoke callback packet => some (callback, packet)
  | _ => none

def start (operator peer : Node) : Session where
  operator := { operator with parsers := fun _ => none, commandTracker := {} }
  peer := { peer with parsers := fun _ => none, commandTracker := {} }

def step (session : Session) : Action → Option Session
  | .subscribe msgId cb =>
      some { session with peer :=
        { session.peer with dispatcher := session.peer.dispatcher.subscribe msgId cb } }
  | .track now command => do
      let seq := command.packet.header.sequence
      if command.packet.header.msgId = Node.msgIdUserCommand ∧ seq ∉ session.issued then
        let commandTracker ← session.operator.commandTracker.track now seq command.packet
        some { session with
                operator := { session.operator with commandTracker }
                sending := session.sending ++ [command.packet]
                issued := seq :: session.issued }
      else none
  | .transmit i sent => do
      let packet ← session.sending[i]?
      let session := { session with sending := session.sending.eraseIdx i }
      let commandTracker := session.operator.commandTracker.resolve packet.header.sequence .failed
      let failed := { session with operator := { session.operator with commandTracker } }
      match session.operator.sendPacket packet with
      | none => some failed
      | some (_, bytes) => some (if sent then { session with toPeer := session.toPeer ++ [bytes] } else failed)
  | .checkTimeouts now =>
      let (commandTracker, retries) := session.operator.commandTracker.checkTimeouts now
      let frames := (retries.filterMap session.operator.sendPacket).map Prod.snd
      some { session with operator := { session.operator with commandTracker }, toPeer := session.toPeer ++ frames }
  | .peerReceives i interfaceId => do
      let frame ← session.toPeer[i]?
      let (peer, events) := session.peer.processRawBytes frame interfaceId
      some { session with
              peer
              toOperator := session.toOperator ++ events.filterMap sentFrame
              invoked := session.invoked ++ events.filterMap invocation }
  | .operatorReceives i interfaceId => do
      let frame ← session.toOperator[i]?
      let (operator, events) := session.operator.processRawBytes frame interfaceId
      some { session with operator, toPeer := session.toPeer ++ events.filterMap sentFrame }

def run (session : Session) (actions : List Action) : Option Session := Trace.run step session actions

def Accepted (session : Session) (seq : UInt16) : Prop :=
  (seq, CommandResult.accepted) ∈ session.operator.commandTracker.settled

def HasCallback (peer : Node) : Prop := ∃ callback, some callback ∈ peer.dispatcher.registry Node.msgIdUserCommand

end Session

end KnowledgeAcquisition.RoCommLink
