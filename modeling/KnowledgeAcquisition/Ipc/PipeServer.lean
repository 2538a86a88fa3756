import KnowledgeAcquisition.Ipc.Receiver
import KnowledgeAcquisition.Library.Trace

/-!
# The pipe server

`ipc/posix/pipe/pipe_server.h` and `pipe_server.cpp`, for a server in `Feedback` mode. The acceptor thread runs
`accept_client` again and again; the main loop runs `execute_housekeeping_phase` and `process_client_packet`.
They share the registry, so each of the three is cut where it takes or leaves the lock, or reads the clock.
-/

namespace KnowledgeAcquisition.Ipc
open Library

abbrev ClientId := List UInt8

def ascii (text : String) : List UInt8 := text.toList.map fun letter => UInt8.ofNat letter.toNat

structure ClientSession where
  lastHeartbeatTimestampMs : UInt64 := 0
  deriving DecidableEq, Repr

namespace ClientSession

def registerHeartbeat (session : ClientSession) (currentTimeMs : UInt64) : ClientSession :=
  { session with lastHeartbeatTimestampMs := currentTimeMs }

def isHeartbeatExpired (session : ClientSession) (currentTimeMs timeoutLimitMs : UInt64) : Bool :=
  if session.lastHeartbeatTimestampMs = 0 then false
  else timeoutLimitMs < currentTimeMs - session.lastHeartbeatTimestampMs

end ClientSession

abbrev Registry := ClientId → Option ClientSession

inductive Answer where
  | opened
  | rejected
  | removed
  deriving DecidableEq, Repr

def Answer.text : Answer → String
  | opened => "OPENED"
  | rejected => "REJECTED"
  | removed => "REMOVED"

def request (packet : Received) : Option (ClientId × UInt32) :=
  if packet.header.type = .command ∧ packet.payload.length = IPCRequestPayload.size then
    let req := IPCRequestPayload.ofBytes packet.payload
    -- `strnlen`: the characters up to the first zero.
    some (req.clientId.toList.takeWhile (· ≠ 0), req.command)
  else none

/-- What `accept_client` does with a packet it received, up to the answer. The last component is the id for
which it goes on to make the pipes and to wait until the client joins. -/
def acceptClient (registry : Registry) (packet : Received) : Option Answer × Registry × Option ClientId :=
  match request packet with
  | none => (none, registry, none)
  | some (clientId, command) =>
      match registry clientId with
      | some _ =>
          if command = 2 then (some .removed, Function.update registry clientId none, none)
          else (some .rejected, registry, none)
      | none => (some .opened, registry, some clientId)

def dynamicPaths (clientId : ClientId) : List (List UInt8) :=
  let dynamicMainPath := ascii "/tmp/pipe_" ++ clientId
  [dynamicMainPath, dynamicMainPath ++ ascii "_fb"]

/-- The registration at the end of `accept_client`: `emplace`, which keeps a session that is there, and
`register_heartbeat`. -/
def joinClient (registry : Registry) (clientId : ClientId) (now : UInt64) : Registry :=
  Function.update registry clientId (some (((registry clientId).getD {}).registerHeartbeat now))

/-- The sweep of `execute_housekeeping_phase`, with the time that it read before it took the lock. -/
def sweepRegistry (registry : Registry) (currentTimeMs : UInt64) : Registry :=
  fun clientId => (registry clientId).filter fun session => !session.isHeartbeatExpired currentTimeMs 5000

def stampSession (registry : Registry) (clientId : ClientId) (currentTimeMs : UInt64) : Registry :=
  Function.update registry clientId ((registry clientId).map (·.registerHeartbeat currentTimeMs))

inductive MainPhase where
  | idle
  | sampled (currentTimeMs : UInt64)
  | processing (clientId : ClientId) (type : DataType) (currentTimeMs : UInt64)
  deriving DecidableEq

structure PipeServer where
  clock : UInt64
  registry : Registry := fun _ => none
  joining : Option ClientId := none
  main : MainPhase := .idle
  serverRunning : Bool := true

namespace PipeServer

inductive Action where
  | tick (now : UInt64)
  | accept (packet : Received)
  | join
  | sample
  | sweep
  | process (clientId : ClientId) (packet : Received)
  | stamp
  deriving DecidableEq

def step (s : PipeServer) : Action → Option PipeServer
  | .tick now => if s.clock ≤ now then some { s with clock := now } else none
  | .accept packet =>
      if s.serverRunning ∧ s.joining = none then
        let (_, registry, joining) := acceptClient s.registry packet
        some { s with registry, joining }
      else none
  | .join => s.joining.map fun clientId =>
      { s with registry := joinClient s.registry clientId s.clock, joining := none
               serverRunning := s.serverRunning && clientId ≠ ascii "client_alpha_9999" }
  | .sample => if s.main = .idle then some { s with main := .sampled s.clock } else none
  | .sweep =>
      match s.main with
      | .sampled currentTimeMs => some { s with registry := sweepRegistry s.registry currentTimeMs, main := .idle }
      | _ => none
  | .process clientId packet =>
      if s.main = .idle ∧ (s.registry clientId).isSome then
        some { s with main := .processing clientId packet.header.type s.clock }
      else none
  | .stamp =>
      match s.main with
      | .processing clientId type currentTimeMs =>
          some { s with
            registry := if type = .heartbeat then stampSession s.registry clientId currentTimeMs else s.registry
            main := .idle }
      | _ => none

end PipeServer

end KnowledgeAcquisition.Ipc
