import KnowledgeAcquisition.Ipc.PipeServer

/-!
# The pipe client

`ipc/posix/pipe/pipe_client.h` and `pipe_client.cpp`, for clients in `CheckLose` mode against a server in `Feedback`
mode: the handshake of several clients with one server, and the feedback of one client that is connected. The
pipes are queues of packets. The time and the checksum of a packet, which nobody here goes by, are zero.
-/

namespace KnowledgeAcquisition.Ipc
open Library

def packet (type : DataType) (payload : List UInt8) (seq : UInt32) : Received where
  header := { type, payloadSize := UInt32.ofNat payload.length, timestampMs := 0, sequenceId := seq
              hasCheckSum := 0, checkSumCalculated := 0 }
  payload

/-- `strncpy` into the field, which cuts the id or fills up with zeros. -/
def requestPayload (clientId : ClientId) (command : UInt32) : IPCRequestPayload where
  clientId := Vector.ofFn fun i => (clientId.takeWhile (· ≠ 0)).getD i 0
  command

def switchedPaths (clientId : ClientId) : List (List UInt8) :=
  let upstreamPath := ascii "/tmp/pipe_" ++ clientId
  [upstreamPath, upstreamPath ++ ascii "_fb"]

/-- A `std::string_view` in memory, which is what `send` makes the payload of an answer. -/
def viewBytes (text : String) (address : Nat) : List UInt8 :=
  littleEndian 8 text.length ++ littleEndian 8 address

structure Reply (ι : Type) where
  client : ι
  answer : Answer
  packet : Received
  deriving DecidableEq

inductive Outcome (ι : Type) where
  | threw (reply : Reply ι)
  | removed (reply : Reply ι)
  | switched (reply : Reply ι)
  | failed (reply : Reply ι)
  deriving DecidableEq

inductive ClientPhase (ι : Type) where
  | ready
  | waiting
  | returned (outcome : Outcome ι)
  deriving DecidableEq

def takeReply {ι : Type} (currentSeq : UInt32) (reply : Reply ι) : Outcome ι :=
  if reply.packet.payload = ascii "REJECTED" then .threw reply
  else if reply.packet.payload = ascii "REMOVED" then .removed reply
  else if reply.packet.header.sequenceId = currentSeq then .switched reply
  else .failed reply

/-- Some clients and the addresses at which the server has the texts of its answers. -/
structure Parties (ι : Type) where
  clientId : ι → ClientId
  currentSeq : ι → UInt32
  literal : Answer → Nat

structure Handshake (ι : Type) where
  server : PipeServer
  clients : ι → ClientPhase ι := fun _ => .ready
  requests : List (ι × Received) := []
  replies : List (Reply ι) := []
  sendOrder : List ι := []
  reads : Nat := 0

namespace Handshake

inductive Action (ι : Type) where
  | send (client : ι)
  | accept
  | server (action : PipeServer.Action)
  | read (client : ι)
  deriving DecidableEq

variable {ι : Type} [DecidableEq ι]

def step (parties : Parties ι) (s : Handshake ι) : Action ι → Option (Handshake ι)
  | .send client =>
      if s.clients client = .ready then
        let req := packet .command (requestPayload (parties.clientId client) 1).toBytes (parties.currentSeq client)
        some { s with clients := Function.update s.clients client .waiting
                      requests := s.requests ++ [(client, req)], sendOrder := s.sendOrder ++ [client] }
      else none
  | .accept =>
      match s.requests with
      | [] => none
      | (client, req) :: requests =>
          (s.server.step (.accept req)).map fun server =>
            let replies := (acceptClient s.server.registry req).1.toList.map fun answer =>
              { client, answer
                packet := packet .command (viewBytes answer.text (parties.literal answer)) req.header.sequenceId }
            { s with server, requests, replies := s.replies ++ replies }
  | .server (.accept _) => none
  -- The other steps of the server. It may find a client at the other end of its pipe at any time.
  | .server action => (s.server.step action).map fun server => { s with server }
  | .read client =>
      match s.replies with
      | [] => none
      | reply :: replies =>
          if s.clients client = .waiting then
            let outcome := takeReply (parties.currentSeq client) reply
            some { s with clients := Function.update s.clients client (.returned outcome), replies
                          reads := s.reads + 1 }
          else none

end Handshake

/-! ## Feedback -/

/-- A packet of a push, or a reply to one, and how many pushes had begun with that one. -/
structure Numbered where
  push : Nat
  packet : Received
  deriving DecidableEq

structure Link where
  currentSeq : UInt32
  pushes : Nat := 0
  /-- A push that has taken its number and not yet written its packet. -/
  pushing : Option (DataType × List UInt8) := none
  upstream : List Numbered := []
  downstream : List Numbered := []
  lastHeartbeatTime : UInt64 := 0
  /-- The reply that `check_feedback` has received and not yet compared. -/
  reading : Option Numbered := none
  lost : List (UInt32 × UInt32) := []
  deriving DecidableEq

namespace Link

inductive Action where
  | beginPush (type : DataType) (payload : List UInt8)
  | endPush
  | serve (now : UInt64) (fd : UInt32)
  | receive
  | compare
  deriving DecidableEq

def feedback (lastHeartbeatTime now : UInt64) (fd : UInt32) (seq : UInt32) : List Received :=
  let fbPayload := requestPayload (ascii "Server feedback to client fd: ") fd
  packet .command fbPayload.toBytes seq ::
    if 1000 < now - lastHeartbeatTime then [packet .heartbeat (ascii "server_name") seq] else []

def step (s : Link) : Action → Option Link
  | .beginPush type payload =>
      if s.pushing = none then
        some { s with currentSeq := s.currentSeq + 1, pushes := s.pushes + 1, pushing := some (type, payload) }
      else none
  | .endPush => s.pushing.map fun (type, payload) =>
      { s with
        pushing := none
        upstream := s.upstream ++ [{ push := s.pushes, packet := packet type payload s.currentSeq }] }
  | .serve now fd =>
      match s.upstream with
      | [] => none
      | sent :: upstream =>
          -- `receive` fails on a packet without payload.
          if sent.packet.payload = [] then some { s with upstream }
          else
            let replies := feedback s.lastHeartbeatTime now fd sent.packet.header.sequenceId
            some { s with
              upstream
              downstream := s.downstream ++ replies.map fun reply => { push := sent.push, packet := reply }
              lastHeartbeatTime := if 1000 < now - s.lastHeartbeatTime then now else s.lastHeartbeatTime }
  | .receive =>
      match s.downstream, s.reading with
      | reply :: downstream, none =>
          some { s with downstream, reading := if reply.packet.payload = [] then none else some reply }
      | _, _ => none
  | .compare => s.reading.map fun reply =>
      { s with
        reading := none
        lost := if reply.packet.header.sequenceId ≠ s.currentSeq then
            s.lost ++ [(s.currentSeq, reply.packet.header.sequenceId)]
          else s.lost }

end Link

end KnowledgeAcquisition.Ipc
