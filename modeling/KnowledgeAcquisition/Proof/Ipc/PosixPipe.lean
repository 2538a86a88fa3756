import KnowledgeAcquisition.Ipc.PosixPipe
import KnowledgeAcquisition.Proof.Ipc.Receiver

/-!
# Corrupted packets

When `receive_packet` returns true, and what is then known of the payload.
-/

namespace KnowledgeAcquisition.Proof.Ipc
open KnowledgeAcquisition.Ipc Library

section Stream

variable {headerGrant payloadGrant : Nat → Nat} {pipe : List UInt8} {out : Received}

def payloadOf (pipe : List UInt8) : List UInt8 :=
  (pipe.drop PacketHeader.size).take (headerOf pipe).payloadSize.toNat

structure Complete (headerGrant payloadGrant : Nat → Nat) (pipe : List UInt8) : Prop where
  header : PacketHeader.size ≤ pipe.length
  headerRead : PacketHeader.size ≤ headerGrant PacketHeader.size
  positive : 0 < (headerOf pipe).payloadSize
  payload : (payloadOf pipe).length = (headerOf pipe).payloadSize.toNat
  payloadRead : (headerOf pipe).payloadSize.toNat ≤ payloadGrant (headerOf pipe).payloadSize.toNat

theorem readv_length (grant : Nat → Nat) (requested : Nat) (pipe : List UInt8) :
    (readv grant requested pipe).1.length = min (min requested (grant requested)) pipe.length := by
  rw [readv, List.splitAt_eq, List.length_take]

theorem readv_granted {grant : Nat → Nat} {requested : Nat} (granted : requested ≤ grant requested)
    (pipe : List UInt8) : readv grant requested pipe = (pipe.take requested, pipe.drop requested) := by
  rw [readv, Nat.min_eq_left granted, List.splitAt_eq]

theorem receiveStream_headed (long : PacketHeader.size ≤ pipe.length)
    (granted : PacketHeader.size ≤ headerGrant PacketHeader.size) :
    receiveStream headerGrant payloadGrant pipe out =
      let size := (headerOf pipe).payloadSize.toNat
      let (bytes, rest) := readv payloadGrant size (pipe.drop PacketHeader.size)
      if 0 < (headerOf pipe).payloadSize then
        (bytes.length = size, ⟨headerOf pipe, overlay bytes (resizeTo 0 out.payload size)⟩, rest)
      else (false, { out with header := headerOf pipe }, pipe.drop PacketHeader.size) := by
  have length : (pipe.take PacketHeader.size).length = PacketHeader.size := by
    rw [List.length_take, Nat.min_eq_left long]
  have header : PacketHeader.ofBytes (overlay (pipe.take PacketHeader.size) out.header.toBytes) = headerOf pipe := by
    rw [overlay_of_length_eq (by rw [length, header_toBytes_length]), headerOf]
  simp only [receiveStream, readv_granted granted, length, header, ne_eq, not_true, if_false]

theorem receiveStream_complete (complete : Complete headerGrant payloadGrant pipe) :
    (receiveStream headerGrant payloadGrant pipe out).1 = true ∧
      (receiveStream headerGrant payloadGrant pipe out).2.1 = ⟨headerOf pipe, payloadOf pipe⟩ := by
  have length : ((pipe.drop PacketHeader.size).take (headerOf pipe).payloadSize.toNat).length =
      (headerOf pipe).payloadSize.toNat := complete.payload
  rw [receiveStream_headed complete.header complete.headerRead]
  dsimp only
  rw [readv_granted complete.payloadRead]
  dsimp only
  rw [if_pos complete.positive, length, overlay_of_length_eq (by rw [length, resizeTo_length])]
  exact ⟨decide_eq_true rfl, rfl⟩

theorem complete_of_received (received : (receiveStream headerGrant payloadGrant pipe out).1 = true) :
    Complete headerGrant payloadGrant pipe := by
  have headed : PacketHeader.size ≤ pipe.length ∧ PacketHeader.size ≤ headerGrant PacketHeader.size := by
    by_contra partly
    have short : (readv headerGrant PacketHeader.size pipe).1.length ≠ PacketHeader.size := by
      rw [readv_length]
      omega
    simp only [receiveStream, short, ne_eq, not_false_eq_true, if_true] at received
    cases received
  obtain ⟨long, granted⟩ := headed
  rw [receiveStream_headed long granted] at received
  dsimp only at received
  split_ifs at received with positive
  have length := of_decide_eq_true received
  rw [readv_length] at length
  refine ⟨long, granted, positive, ?_, by omega⟩
  rw [payloadOf, List.length_take]
  omega

theorem received_iff : (receiveStream headerGrant payloadGrant pipe out).1 = true ↔
    Complete headerGrant payloadGrant pipe :=
  ⟨complete_of_received, fun complete => (receiveStream_complete complete).1⟩

end Stream

section Packet

variable {headerGrant payloadGrant : Nat → Nat} {pipe : List UInt8} {out : Received}

theorem receivePacket_eq : (receivePacket headerGrant payloadGrant pipe out).result =
      (receiveStream headerGrant payloadGrant pipe out).1 ∧
    (receivePacket headerGrant payloadGrant pipe out).packet =
      (receiveStream headerGrant payloadGrant pipe out).2.1 := by
  unfold receivePacket
  dsimp only
  split
  · exact ⟨rfl, rfl⟩
  · exact ⟨rfl, rfl⟩

/-- A packet that is accepted with a checksum has the payload that the checksum was taken of. -/
def AcceptsIntact (receipt : Receipt) : Prop :=
  receipt.result = true → receipt.packet.header.hasCheckSum ≠ 0 →
    calculateCrc32 receipt.packet.payload = receipt.packet.header.checkSumCalculated

def Corrupted (headerGrant payloadGrant : Nat → Nat) (pipe : List UInt8) : Prop :=
  Complete headerGrant payloadGrant pipe ∧ (headerOf pipe).hasCheckSum ≠ 0 ∧
    calculateCrc32 (payloadOf pipe) ≠ (headerOf pipe).checkSumCalculated

theorem acceptsIntact_iff (headerGrant payloadGrant : Nat → Nat) (pipe : List UInt8) (out : Received) :
    AcceptsIntact (receivePacket headerGrant payloadGrant pipe out) ↔ ¬Corrupted headerGrant payloadGrant pipe := by
  obtain ⟨result, packet⟩ := @receivePacket_eq headerGrant payloadGrant pipe out
  rw [AcceptsIntact, result, packet, received_iff]
  by_cases complete : Complete headerGrant payloadGrant pipe
  · rw [(receiveStream_complete complete).2]
    constructor
    · rintro intact ⟨_, flagged, mismatch⟩
      exact mismatch (intact complete flagged)
    · intro sound _ flagged
      by_contra mismatch
      exact sound ⟨complete, flagged, mismatch⟩
  · constructor
    · rintro _ ⟨whole, _⟩
      exact complete whole
    · intro _ whole
      exact absurd whole complete

theorem Corrupted.logged (corrupted : Corrupted headerGrant payloadGrant pipe) :
    (receivePacket headerGrant payloadGrant pipe out).result = true ∧
      .corrupted (calculateCrc32 (payloadOf pipe)) (headerOf pipe).checkSumCalculated ∈
        (receivePacket headerGrant payloadGrant pipe out).log := by
  obtain ⟨complete, flagged, mismatch⟩ := corrupted
  obtain ⟨received, packet⟩ := @receiveStream_complete _ _ _ out complete
  have whole : (payloadOf pipe).take (headerOf pipe).payloadSize.toNat = payloadOf pipe :=
    List.take_of_length_le (Nat.le_of_eq complete.payload)
  simp [receivePacket, received, packet, flagged, verify, whole, mismatch]

/-- A text of one byte with a checksum of zero. -/
def forgedPacket : List UInt8 :=
  PacketHeader.toBytes { type := .text, payloadSize := 1, timestampMs := 0, sequenceId := 1, hasCheckSum := 1
                         checkSumCalculated := 0 } ++ [97]

theorem forged_packet_accepted :
    ¬AcceptsIntact (receivePacket id id forgedPacket ⟨PacketHeader.ofBytes [], []⟩) := by
  intro intact
  exact absurd (intact (by decide +kernel) (by decide +kernel)) (by decide +kernel)

end Packet

end KnowledgeAcquisition.Proof.Ipc
