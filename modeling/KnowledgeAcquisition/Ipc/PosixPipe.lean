import KnowledgeAcquisition.Ipc.Receiver

/-!
# Packets from a pipe

`PosixPipe::receive_packet` of `ipc/posix/pipe/posix_pipe.cpp` with the dispatcher of `ipc/ipc_msg_dispatcher.h`. The
handlers of the dispatcher and the outcome of the checksum go to the log, which is part of the result here.
-/

namespace KnowledgeAcquisition.Ipc

inductive Dispatched where
  | text (bytes : List UInt8)
  | double (bytes : List UInt8)
  | int (bytes : List UInt8)
  | media (bytes : List UInt8)
  | command (request : IPCRequestPayload)
  | nothing
  | unknown
  deriving DecidableEq, Repr

/-- `IpcUtils::unpack` for the request; a payload that is too short leaves it zero. -/
def unpackRequest (payload : List UInt8) : IPCRequestPayload :=
  if payload.length ≥ IPCRequestPayload.size then IPCRequestPayload.ofBytes payload
  else IPCRequestPayload.ofBytes []

def dispatch (header : PacketHeader) (payload : List UInt8) : Dispatched :=
  match header.type with
  | .heartbeat | .text => .text payload
  | .number =>
      if payload.length = 8 then .double payload
      else if payload.length = 4 then .int payload
      else .nothing
  | .media | .custom => .media payload
  | .command => .command (unpackRequest payload)
  | .unnamed _ _ => .unknown

inductive LogLine where
  | canNotReceive (type : DataType)
  | data (packet : Dispatched)
  | checkSumFromSender (checkSum : UInt32)
  | integrityVerified
  | corrupted (runtimeChecksum sent : UInt32)
  deriving DecidableEq, Repr

def verify (packet : Received) : List LogLine :=
  let sent := packet.header.checkSumCalculated
  let runtimeChecksum := calculateCrc32 (packet.payload.take packet.header.payloadSize.toNat)
  if runtimeChecksum = sent then [.checkSumFromSender sent, .integrityVerified]
  else [.checkSumFromSender sent, .corrupted runtimeChecksum sent]

structure Receipt where
  result : Bool
  packet : Received
  pipe : List UInt8
  log : List LogLine
  deriving DecidableEq, Repr

def receivePacket (headerGrant payloadGrant : Nat → Nat) (pipe : List UInt8) (out : Received) : Receipt :=
  let (result, packet, pipe) := receiveStream headerGrant payloadGrant pipe out
  if !result then { result, packet, pipe, log := [.canNotReceive packet.header.type] }
  else
    let data := dispatch packet.header packet.payload
    let checks := if packet.header.hasCheckSum ≠ 0 then verify packet else []
    { result, packet, pipe, log := .data data :: checks }

end KnowledgeAcquisition.Ipc
