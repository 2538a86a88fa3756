import Mathlib.Data.List.Basic

/-!
# Packets and frames

`core/protocol/packet.h`, `packet_serializer.cpp` and `byte_utilities.h` of `laboratory/cpp/RoCommLink`. A
`uint8_t` or `uint16_t` is the Lean word of that width, so that shifts and casts lose what they lose
in the source. The acknowledgement payload is a packed struct moved with `memcpy`, least significant
byte first.
-/

namespace KnowledgeAcquisition.RoCommLink

structure PacketHeader where
  magic : UInt8 := 0x5A
  version : UInt8 := 1
  systemId : UInt8 := 0
  componentId : UInt8 := 0
  msgId : UInt16 := 0
  sequence : UInt16 := 0
  payloadLen : UInt16 := 0
  deriving DecidableEq, Repr

structure Packet where
  header : PacketHeader := {}
  payload : List UInt8 := []
  checksum : UInt16 := 0
  deriving DecidableEq, Repr

/-- `enum class CommandResult : uint8_t`. A cast from a byte without a name keeps its value. -/
inductive CommandResult where
  | accepted
  | temporarilyRejected
  | denied
  | failed
  | unnamed (value : UInt8)
  deriving DecidableEq, Repr

def CommandResult.toByte : CommandResult → UInt8
  | accepted => 0
  | temporarilyRejected => 1
  | denied => 2
  | failed => 3
  | unnamed value => value

def CommandResult.ofByte (byte : UInt8) : CommandResult :=
  if byte = 0 then .accepted
  else if byte = 1 then .temporarilyRejected
  else if byte = 2 then .denied
  else if byte = 3 then .failed
  else .unnamed byte

structure CommandAckPayload where
  commandMsgId : UInt16
  targetSequence : UInt16
  result : UInt8
  deriving DecidableEq, Repr

def highByte (word : UInt16) : UInt8 := ((word >>> 8) &&& 0xFF).toUInt8
def lowByte (word : UInt16) : UInt8 := (word &&& 0xFF).toUInt8

namespace CommandAckPayload

def bytes (ack : CommandAckPayload) : List UInt8 :=
  [lowByte ack.commandMsgId, highByte ack.commandMsgId,
   lowByte ack.targetSequence, highByte ack.targetSequence, ack.result]

def ofBytes : List UInt8 → Option CommandAckPayload
  | c₀ :: c₁ :: t₀ :: t₁ :: result :: _ =>
      some { commandMsgId := c₁.toUInt16 <<< 8 ||| c₀.toUInt16
             targetSequence := t₁.toUInt16 <<< 8 ||| t₀.toUInt16
             result }
  | _ => none

end CommandAckPayload

def calculateChecksum (data : List UInt8) : UInt16 :=
  data.foldl (fun sum byte => sum + byte.toUInt16) 0

namespace PacketSerializer

def body (packet : Packet) : List UInt8 :=
  let actualPayloadLen := UInt16.ofNat packet.payload.length
  [packet.header.magic, packet.header.version, packet.header.systemId, packet.header.componentId,
   highByte packet.header.msgId, lowByte packet.header.msgId,
   highByte packet.header.sequence, lowByte packet.header.sequence,
   highByte actualPayloadLen, lowByte actualPayloadLen] ++ packet.payload

def serialize (packet : Packet) : List UInt8 :=
  let computedChecksum := calculateChecksum (body packet)
  body packet ++ [highByte computedChecksum, lowByte computedChecksum]

end PacketSerializer

def Marker (byte : UInt8) : Prop := byte = 0x5A ∨ byte = 0xAA

instance (byte : UInt8) : Decidable (Marker byte) := inferInstanceAs (Decidable (_ ∨ _))

/-- A packet that the parser can take in: it begins with a start marker and its length fits a byte. -/
structure Datagram where
  packet : Packet
  magic : Marker packet.header.magic
  short : packet.payload.length ≤ 255
  deriving DecidableEq

theorem marker_default : Marker ({} : PacketHeader).magic := Or.inl rfl

theorem short_default : ({} : Packet).payload.length ≤ 255 := Nat.zero_le 255

def Datagram.bytes (datagram : Datagram) : List UInt8 := PacketSerializer.serialize datagram.packet

end KnowledgeAcquisition.RoCommLink
