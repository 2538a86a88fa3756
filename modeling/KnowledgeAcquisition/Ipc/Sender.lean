import KnowledgeAcquisition.Ipc.Header

/-!
# Sending packets

`IPCSenderBase::send` of `ipc/ipc_sender.h` with the checksum of `util/constexpr_util.h` and the address cache of
`ipc/ipc_crc_expr.h`. A payload is presented as a block of memory, an address with the bytes that lie there
during the call. The descriptor is open; what becomes of the vector that is written is up to the transport.
-/

namespace KnowledgeAcquisition.Ipc
open Library

def crcBit (crc : UInt32) : UInt32 := (crc >>> 1) ^^^ (0xEDB88320 &&& -(crc &&& 1))

def crcByte (crc : UInt32) (byte : UInt8) : UInt32 := crcBit^[8] (crc ^^^ byte.toUInt32)

def calculateCrc32 (data : List UInt8) : UInt32 := ~~~(data.foldl crcByte 0xFFFFFFFF)

/-- Memory as the caller presents it. Nothing lies behind a null pointer. -/
structure Buffer where
  address : Nat
  contents : List UInt8
  null : address = 0 → contents = []
  deriving DecidableEq

namespace Buffer

def payloadSize (buffer : Buffer) : UInt32 := UInt32.ofNat buffer.contents.length

def payload (buffer : Buffer) : List UInt8 := buffer.contents.take buffer.payloadSize.toNat

end Buffer

structure RuntimeStringCache where
  lastSeenPtr : Nat := 0
  cachedCrc : UInt32 := 0
  deriving DecidableEq, Repr

structure CachePool where
  slots : Vector RuntimeStringCache 16 := Vector.replicate 16 {}
  cacheIndex : Fin 16 := 0
  deriving DecidableEq

def CachePool.insert (pool : CachePool) (slot : RuntimeStringCache) : CachePool where
  slots := pool.slots.set pool.cacheIndex slot
  cacheIndex := pool.cacheIndex + 1

def CachePool.checkSum (pool : CachePool) (buffer : Buffer) : UInt32 × CachePool :=
  match pool.slots.toList.find? fun slot => slot.lastSeenPtr = buffer.address with
  | some slot => (slot.cachedCrc, pool)
  | none =>
      let newCrc := calculateCrc32 buffer.payload
      (newCrc, pool.insert ⟨buffer.address, newCrc⟩)

inductive CachedType where
  | string
  | stringView
  deriving DecidableEq, Repr

structure StaticPacketTraits where
  staticPtr : Nat
  crc32 : UInt32
  deriving DecidableEq

def registerStaticPacket (staticInstance : Buffer) (token : List UInt8) : StaticPacketTraits where
  staticPtr := staticInstance.address
  crc32 := calculateCrc32 token

/-- The argument of `send`. A `std::string_view` is trivially copyable and an earlier branch than that of the
containers takes it: its memory is the view itself, a length and an address, and not the text. -/
inductive Payload where
  | object (traits : Option StaticPacketTraits) (buffer : Buffer)
  | vector (buffer : Buffer)
  | cached (type : CachedType) (buffer : Buffer)
  deriving DecidableEq

def Payload.buffer : Payload → Buffer
  | object _ buffer => buffer
  | vector buffer => buffer
  | cached _ buffer => buffer

abbrev Pools := CachedType → CachePool

def Payload.checkSum (pools : Pools) : Payload → UInt32 × Pools
  | object (some traits) buffer =>
      if buffer.address = traits.staticPtr then (traits.crc32, pools)
      else (calculateCrc32 buffer.payload, pools)
  | object none buffer => (calculateCrc32 buffer.payload, pools)
  | vector buffer => (calculateCrc32 buffer.payload, pools)
  | cached type buffer =>
      let (crc, pool) := (pools type).checkSum buffer
      (crc, Function.update pools type pool)

structure SendCall where
  type : DataType
  payload : Payload
  seq : UInt32
  now : UInt64
  deriving DecidableEq

def send (hasCheckSum : Bool) (pools : Pools) (call : SendCall) : PacketHeader × Pools :=
  let header : PacketHeader :=
    { type := call.type, payloadSize := call.payload.buffer.payloadSize, timestampMs := call.now
      sequenceId := call.seq, hasCheckSum := 0, checkSumCalculated := 0 }
  if hasCheckSum then
    let (crc, pools) := call.payload.checkSum pools
    ({ header with hasCheckSum := 1, checkSumCalculated := crc }, pools)
  else (header, pools)

structure TextCall where
  cachedType : CachedType
  buffer : Buffer
  type : DataType
  seq : UInt32
  now : UInt64
  deriving DecidableEq

def TextCall.call (text : TextCall) : SendCall where
  type := text.type
  payload := .cached text.cachedType text.buffer
  seq := text.seq
  now := text.now

def poolsAfter (calls : List TextCall) : Pools :=
  calls.foldl (fun pools text => (send true pools text.call).2) fun _ => {}

def iov (header : PacketHeader) (payload : Payload) : List UInt8 :=
  if 0 < header.payloadSize then header.toBytes ++ payload.buffer.payload else header.toBytes

end KnowledgeAcquisition.Ipc
