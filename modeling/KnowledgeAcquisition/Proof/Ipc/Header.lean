import KnowledgeAcquisition.Ipc.Header

/-!
# Headers in memory

What is written as the bytes of a header is read back as that header.
-/

namespace KnowledgeAcquisition.Proof.Ipc
open KnowledgeAcquisition.Ipc Library

theorem dataType_ofByte_toByte (type : DataType) : DataType.ofByte type.toByte = type := by
  cases type with
  | unnamed value high =>
      have above : ∀ small : UInt8, small < 6 → value ≠ small := by
        intro small below same
        exact absurd high (UInt8.not_le.mpr (same ▸ below))
      simp only [DataType.toByte, DataType.ofByte, above 0 (by decide), above 1 (by decide),
        above 2 (by decide), above 3 (by decide), above 4 (by decide), if_false]
      exact dif_pos high
  | _ => rfl

theorem uint32_littleEndian (word : UInt32) : UInt32.ofNat (ofLittleEndian (littleEndian 4 word.toNat)) = word := by
  rw [ofLittleEndian_littleEndian, Nat.mod_eq_of_lt (by simpa using word.toNat_lt), UInt32.ofNat_toNat]

theorem uint64_littleEndian (word : UInt64) : UInt64.ofNat (ofLittleEndian (littleEndian 8 word.toNat)) = word := by
  rw [ofLittleEndian_littleEndian, Nat.mod_eq_of_lt (by simpa using word.toNat_lt), UInt64.ofNat_toNat]

theorem toNat_of_not_pos {size : UInt32} (empty : ¬ 0 < size) : size.toNat = 0 :=
  Nat.le_zero.mp (UInt32.le_iff_toNat_le.mp (UInt32.not_lt.mp empty))

@[simp] theorem header_toBytes_length (header : PacketHeader) : header.toBytes.length = PacketHeader.size := by
  simp [PacketHeader.toBytes, PacketHeader.size]

theorem header_ofBytes_toBytes (header : PacketHeader) (rest : List UInt8) :
    PacketHeader.ofBytes (header.toBytes ++ rest) = header := by
  obtain ⟨type, payloadSize, timestampMs, sequenceId, hasCheckSum, checkSumCalculated⟩ := header
  -- The widths are fixed, so each field is found where `ofBytes` looks for it by computation.
  apply PacketHeader.mk.injEq .. |>.mpr
  refine ⟨dataType_ofByte_toByte type, ?_, ?_, ?_, rfl, ?_⟩
  · exact uint32_littleEndian payloadSize
  · exact uint64_littleEndian timestampMs
  · exact uint32_littleEndian sequenceId
  · exact uint32_littleEndian checkSumCalculated

end KnowledgeAcquisition.Proof.Ipc
