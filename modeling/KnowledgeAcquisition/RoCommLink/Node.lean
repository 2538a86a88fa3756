import KnowledgeAcquisition.RoCommLink.Parser
import Mathlib.Logic.Function.Basic

/-!
# A RoCommLink node

`RoCommLink`, `RoCommLinkDispatcher` and `CommandTracker` of `laboratory/cpp/RoCommLink`. What a node does to
the outside is a list of events: the bytes handed to a transport, the callbacks invoked, the packets
completed. Times are milliseconds of the steady clock.
-/

namespace KnowledgeAcquisition.RoCommLink
open Library

/-- A subscribed `std::function`: `none` is an empty one. -/
abbrev MessageCallback := Option Nat

structure RoCommLinkDispatcher where
  registry : UInt16 → List MessageCallback := fun _ => []

namespace RoCommLinkDispatcher

def subscribe (dispatcher : RoCommLinkDispatcher) (msgId : UInt16) (cb : MessageCallback) : RoCommLinkDispatcher :=
  { registry := Function.update dispatcher.registry msgId (dispatcher.registry msgId ++ [cb]) }

def dispatch (dispatcher : RoCommLinkDispatcher) (packet : Packet) : List Nat × Bool :=
  ((dispatcher.registry packet.header.msgId).filterMap id, true)

end RoCommLinkDispatcher

structure Transaction where
  seq : UInt16
  packet : Packet
  lastSent : Nat
  retries : UInt8 := 0
  deriving DecidableEq, Repr

structure CommandTracker where
  transactions : List Transaction := []
  settled : List (UInt16 × CommandResult) := []
  deriving DecidableEq, Repr

namespace CommandTracker

def find (tracker : CommandTracker) (seq : UInt16) : Option Transaction :=
  tracker.transactions.find? (·.seq = seq)

/-- `none` is the `std::future_error` of a second `get_future` on the promise already there. -/
def track (tracker : CommandTracker) (now : Nat) (seq : UInt16) (pkt : Packet) : Option CommandTracker :=
  match tracker.find seq with
  | some _ => none
  | none => some { tracker with transactions := tracker.transactions ++ [{ seq, packet := pkt, lastSent := now }] }

def resolve (tracker : CommandTracker) (seq : UInt16) (result : CommandResult) : CommandTracker :=
  match tracker.find seq with
  | none => tracker
  | some _ =>
      { transactions := tracker.transactions.filter (·.seq ≠ seq)
        settled := tracker.settled ++ [(seq, result)] }

def timeoutDuration : Nat := 500
def maxRetries : UInt8 := 3

def checkTransaction (now : Nat) (transaction : Transaction) :
    List Packet × List Transaction × List (UInt16 × CommandResult) :=
  if now - transaction.lastSent > timeoutDuration then
    if transaction.retries < maxRetries then
      ([transaction.packet], [{ transaction with retries := transaction.retries + 1, lastSent := now }], [])
    else ([], [], [(transaction.seq, .failed)])
  else ([], [transaction], [])

def checkTimeouts (tracker : CommandTracker) (now : Nat) : CommandTracker × List Packet :=
  let checked := tracker.transactions.map (checkTransaction now)
  ({ transactions := checked.flatMap (·.2.1), settled := tracker.settled ++ checked.flatMap (·.2.2) },
    checked.flatMap (·.1))

end CommandTracker

inductive Event where
  | forward (interfaceId : UInt8) (bytes : List UInt8)
  | send (interfaceId : UInt8) (bytes : List UInt8)
  | complete (packet : Packet)
  | invoke (callback : Nat) (packet : Packet)
  deriving DecidableEq, Repr

structure Node where
  transports : UInt8 → Bool := fun _ => false
  routingTable : UInt16 → Option UInt8 := fun _ => none
  parsers : UInt8 → Option RoCommLinkParser := fun _ => none
  dispatcher : RoCommLinkDispatcher := {}
  commandTracker : CommandTracker := {}

namespace Node

def defaultBroadcastInterface : UInt8 := 0
def msgIdCommandAck : UInt16 := 0x00FF
def msgIdUserCommand : UInt16 := 0x0001

def addTransport (node : Node) (interfaceId : UInt8) : Node :=
  { node with transports := Function.update node.transports interfaceId true }

def compoundKey (systemId componentId : UInt8) : UInt16 := systemId.toUInt16 <<< 8 ||| componentId.toUInt16

def addRoutingRule (node : Node) (targetSysId targetCompId outInterfaceId : UInt8) : Node :=
  { node with routingTable :=
      Function.update node.routingTable (compoundKey targetSysId targetCompId) (some outInterfaceId) }

def determineRoutingTarget (node : Node) (systemId componentId : UInt8) : UInt8 :=
  match node.routingTable (compoundKey systemId componentId) with
  | some interfaceId => interfaceId
  | none =>
      match node.routingTable (systemId.toUInt16 <<< 8 ||| 0x00) with
      | some interfaceId => interfaceId
      | none => defaultBroadcastInterface

/-- The interface and the frame handed to its transport; `none` when there is no transport. -/
def sendPacket (node : Node) (packet : Packet) : Option (UInt8 × List UInt8) :=
  let target := node.determineRoutingTarget packet.header.systemId packet.header.componentId
  if node.transports target then some (target, PacketSerializer.serialize packet) else none

def ackPacket (packet : Packet) (result : CommandResult) : Packet :=
  let ack : CommandAckPayload :=
    { commandMsgId := packet.header.msgId, targetSequence := packet.header.sequence, result := result.toByte }
  { header := { magic := 0x5A, systemId := packet.header.systemId, componentId := packet.header.componentId,
                msgId := msgIdCommandAck, sequence := packet.header.sequence, payloadLen := 5 }
    payload := ack.bytes }

def dispatch (node : Node) (packet : Packet) : List Event × Bool :=
  let (invoked, success) := node.dispatcher.dispatch packet
  (invoked.map fun callback => .invoke callback packet, success)

def handleComplete (node : Node) (packet : Packet) : Node × List Event :=
  if packet.header.msgId = msgIdCommandAck then
    match CommandAckPayload.ofBytes packet.payload with
    | none => (node, [])
    | some ack =>
        ({ node with commandTracker :=
            node.commandTracker.resolve ack.targetSequence (.ofByte ack.result) }, [])
  else if packet.header.msgId = msgIdUserCommand then
    let (invoked, success) := node.dispatch packet
    let resVal := if success then CommandResult.accepted else CommandResult.denied
    match node.sendPacket (ackPacket packet resVal) with
    | none => (node, invoked)
    | some (interfaceId, bytes) => (node, invoked ++ [.send interfaceId bytes])
  else (node, (node.dispatch packet).1)

def handleResult (bytes : List UInt8) (node : Node) (result : ParseResult) : Node × List Event :=
  match result.status, result.packet with
  | .streamForwardByte, some packet =>
      let target := node.determineRoutingTarget packet.header.systemId packet.header.componentId
      (node, if node.transports target then [.forward target bytes] else [])
  | .complete, some packet =>
      let (node, events) := node.handleComplete packet
      (node, .complete packet :: events)
  | _, _ => (node, [])

def parser (node : Node) (connectionId : UInt8) : RoCommLinkParser := (node.parsers connectionId).getD {}

def setParser (node : Node) (connectionId : UInt8) (parser : RoCommLinkParser) : Node :=
  { node with parsers := Function.update node.parsers connectionId (some parser) }

def processByte (connectionId : UInt8) (bytes : List UInt8) (node : Node) (byte : UInt8) :
    Node × List Event :=
  let (parser, result) := (node.parser connectionId).parseByte byte
  handleResult bytes (node.setParser connectionId parser) result

def processRawBytes (node : Node) (bytes : List UInt8) (connectionId : UInt8) : Node × List Event :=
  if bytes = [] then (node, [])
  else
    let (node, events) := Transducer.feed (processByte connectionId bytes) node bytes
    (node, events.flatten)

def processAll (connectionId : UInt8) (node : Node) (datagrams : List (List UInt8)) :
    Node × List Event :=
  let (node, events) := Transducer.feed (fun node bytes => node.processRawBytes bytes connectionId) node datagrams
  (node, events.flatten)

end Node

end KnowledgeAcquisition.RoCommLink
