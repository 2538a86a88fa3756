import KnowledgeAcquisition.Library.Bytes

/-!
# Packet headers

`ipc/ipc_metadata.h` of `linux/common`. Both structures are packed and are moved as they lie in memory, least
significant byte first.
-/

namespace KnowledgeAcquisition.Ipc
open Library

/-- `enum class DataType : uint8_t`. A byte without a name keeps its value. -/
inductive DataType where
  | number
  | text
  | command
  | media
  | heartbeat
  | custom
  | unnamed (value : UInt8) (high : 6 ≤ value)
  deriving DecidableEq, Repr

namespace DataType

def toByte : DataType → UInt8
  | number => 0
  | text => 1
  | command => 2
  | media => 3
  | heartbeat => 4
  | custom => 5
  | unnamed value _ => value

def ofByte (byte : UInt8) : DataType :=
  if byte = 0 then number
  else if byte = 1 then text
  else if byte = 2 then command
  else if byte = 3 then media
  else if byte = 4 then heartbeat
  else if high : 6 ≤ byte then unnamed byte high
  else custom

end DataType

structure PacketHeader where
  type : DataType
  payloadSize : UInt32
  timestampMs : UInt64
  sequenceId : UInt32
  hasCheckSum : UInt8
  checkSumCalculated : UInt32
  deriving DecidableEq, Repr

namespace PacketHeader

def size : Nat := 22

def toBytes (header : PacketHeader) : List UInt8 :=
  header.type.toByte :: (littleEndian 4 header.payloadSize.toNat ++ littleEndian 8 header.timestampMs.toNat ++
    littleEndian 4 header.sequenceId.toNat ++ header.hasCheckSum ::
    littleEndian 4 header.checkSumCalculated.toNat)

def ofBytes (block : List UInt8) : PacketHeader where
  type := DataType.ofByte (block.getD 0 0)
  payloadSize := UInt32.ofNat (ofLittleEndian ((block.drop 1).take 4))
  timestampMs := UInt64.ofNat (ofLittleEndian ((block.drop 5).take 8))
  sequenceId := UInt32.ofNat (ofLittleEndian ((block.drop 13).take 4))
  hasCheckSum := block.getD 17 0
  checkSumCalculated := UInt32.ofNat (ofLittleEndian ((block.drop 18).take 4))

end PacketHeader

structure IPCRequestPayload where
  clientId : Vector UInt8 32
  command : UInt32
  deriving DecidableEq, Repr

namespace IPCRequestPayload

def size : Nat := 36

def toBytes (request : IPCRequestPayload) : List UInt8 :=
  request.clientId.toList ++ littleEndian 4 request.command.toNat

def ofBytes (block : List UInt8) : IPCRequestPayload where
  clientId := Vector.ofFn fun i => block.getD i 0
  command := UInt32.ofNat (ofLittleEndian ((block.drop 32).take 4))

end IPCRequestPayload

end KnowledgeAcquisition.Ipc
