import KnowledgeAcquisition.Ipc.PipeClient
import KnowledgeAcquisition.Library.Remainder
import KnowledgeAcquisition.Proof.Ipc.Checksum
import KnowledgeAcquisition.Proof.Ipc.ShortReads

/-!
# Registered packets

The checksum of a registered instance is that of its text, and what is sent are the bytes of the object. The two are
told apart by the generator of the checksum.
-/

namespace KnowledgeAcquisition.Proof.Ipc
open KnowledgeAcquisition.Ipc Library Polynomial

noncomputable def crcGenerator : (ZMod 2)[X] :=
  X ^ 32 + X ^ 26 + X ^ 23 + X ^ 22 + X ^ 16 + X ^ 12 + X ^ 11 + X ^ 10 + X ^ 8 + X ^ 7 + X ^ 5 + X ^ 4 + X ^ 2 + X + 1

noncomputable def spelled (data : List UInt8) : (ZMod 2)[X] :=
  X ^ (8 * data.length) * (∑ k ∈ Finset.range 32, X ^ k) + X ^ 32 * Register.message (data.map UInt8.toBitVec)

theorem generator_polynomial : Register.generator polynomial = crcGenerator := by
  simp [Register.generator, Register.value, Finset.sum_range_succ, polynomial, Register.coefficient, crcGenerator]
  ring

theorem value_ones : Register.value 0xFFFFFFFF#32 = ∑ k ∈ Finset.range 32, X ^ k := by
  have ones : ∀ k < 32, (0xFFFFFFFF#32).getMsbD k = true := by decide
  apply Finset.sum_congr rfl
  intro k inside
  rw [ones k (Finset.mem_range.mp inside)]
  simp [Register.coefficient]

theorem calculateCrc32_eq_iff (left right : List UInt8) :
    calculateCrc32 left = calculateCrc32 right ↔ crcGenerator ∣ spelled left - spelled right := by
  have registers := @Register.foldl_absorb_eq_iff 32 8 polynomial (by decide) 0xFFFFFFFF#32
    (left.map UInt8.toBitVec) (right.map UInt8.toBitVec)
  rw [generator_polynomial, value_ones, List.length_map, List.length_map] at registers
  rw [spelled, spelled, ← registers, calculateCrc32_eq_iff_registers]

def staticCall (object : Buffer) (token : List UInt8) (type : DataType) (seq : UInt32) (now : UInt64) : SendCall where
  type
  payload := .object (some (registerStaticPacket object token)) object
  seq
  now

def ChecksumMatches (object : Buffer) (token : List UInt8) : Prop :=
  ∀ (pools : Pools) (type : DataType) (seq : UInt32) (now : UInt64) (out : Received),
    let call := staticCall object token type seq now
    let header := (send true pools call).1
    let packet := iov header call.payload
    header.checkSumCalculated = calculateCrc32 (packet.drop PacketHeader.size) ∧
      ∀ runtimeChecksum sent, .corrupted runtimeChecksum sent ∉ (receivePacket id id packet out).log

section Call

variable (pools : Pools) (object : Buffer) (token : List UInt8) (type : DataType) (seq : UInt32) (now : UInt64)

theorem static_checkSum : (send true pools (staticCall object token type seq now)).1.checkSumCalculated =
    calculateCrc32 token := by
  simp [send, staticCall, Payload.checkSum, registerStaticPacket]

theorem static_transmitted : (iov (send true pools (staticCall object token type seq now)).1
    (staticCall object token type seq now).payload).drop PacketHeader.size = object.payload := by
  have bytes := drop_header (packetSent true pools (staticCall object token type seq now)) []
  rw [List.append_nil, List.append_nil] at bytes
  rw [iov_eq_bytes, bytes]
  rfl

theorem intact_not_reported {packet : Packet} (intact : packet.header.checkSumCalculated = calculateCrc32 packet.payload)
    (out : Received) (runtimeChecksum sent : UInt32) :
    .corrupted runtimeChecksum sent ∉ (receivePacket id id packet.bytes out).log := by
  by_cases positive : 0 < packet.header.payloadSize
  · have stream : receiveStream id id packet.bytes out = (true, packet.toReceived, []) := by
      have received := receive_packet positive packet.size.symm [] out
      rw [List.append_nil] at received
      exact received
    have whole : packet.payload.take packet.header.payloadSize.toNat = packet.payload := by
      rw [packet.size, List.take_length]
    have verified : verify packet.toReceived = [.checkSumFromSender packet.header.checkSumCalculated,
        .integrityVerified] := by
      rw [verify, whole, if_pos intact.symm]
    simp only [receivePacket, stream, verified]
    split <;> simp
  · have none_ : packet.payload = [] := by
      apply List.length_eq_zero_iff.mp
      rw [← packet.size, toNat_of_not_pos positive]
    have stream : receiveStream id id packet.bytes out = (false, { out with header := packet.header }, []) := by
      rw [Packet.bytes, none_]
      exact receive_empty positive [] out
    simp [receivePacket, stream]

end Call

/-- The precomputed checksum is the one of the bytes sent if and only if the generator divides the difference of the
text and these bytes. -/
theorem checksumMatches_iff (object : Buffer) (token : List UInt8) :
    ChecksumMatches object token ↔ crcGenerator ∣ spelled token - spelled object.payload := by
  rw [← calculateCrc32_eq_iff]
  constructor
  · intro matches_
    have first := (matches_ (fun _ => {}) .text 0 0 ⟨PacketHeader.ofBytes [], []⟩).1
    rwa [static_checkSum, static_transmitted] at first
  · intro same pools type seq now out
    constructor
    · rw [static_checkSum, static_transmitted, same]
    · intro runtimeChecksum sent
      rw [iov_eq_bytes]
      apply intact_not_reported
      rw [← show object.payload = (packetSent true pools (staticCall object token type seq now)).payload from rfl, ← same]
      exact static_checkSum pools object token type seq now

def authToken : String :=
  "LARGE_MESSAGES_TOKEN_adslkhglasdfghjsgfkgagewfhawbetgjhwgkafkfhegjkah" ++
  "slsllkhglasdfghjsasdfasfasfsfwqewgvvzxkafkfhegjkahdfasfasfsfwqewgv" ++
  "galkhglasdfghjsgfkgagewasdfsaggjhwgkafkfhegasdfslggfasfasfsfwqewgv"

/-- The object is the view of its text, of which the checksum was taken. -/
theorem auth_payload_mismatch : ¬ ChecksumMatches
    ⟨8192, viewBytes authToken 4096, fun null => absurd null (by decide)⟩ (ascii authToken) := by
  intro matches_
  have first := (matches_ (fun _ => {}) .text 4 0 ⟨PacketHeader.ofBytes [], []⟩).1
  rw [static_checkSum, static_transmitted] at first
  revert first
  decide +kernel

end KnowledgeAcquisition.Proof.Ipc
