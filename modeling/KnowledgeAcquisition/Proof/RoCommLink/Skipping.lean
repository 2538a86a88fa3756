import KnowledgeAcquisition.Proof.RoCommLink.Frame

/-!
# Filters that skip

An early filter that sends the parser to `WaitPayloadSkip` by the header alone. It is asked at the end of the
header and again at the first byte of the checksum, where its answer is still the same: the parser goes
back and forth between skipping and the first byte of a checksum and never waits for a start marker again.
-/

namespace KnowledgeAcquisition.Proof.RoCommLink
open KnowledgeAcquisition.RoCommLink RoCommLinkParser PacketSerializer Library

def skipFilter (choice : PacketHeader → Bool) : EarlyFilter := fun packet state =>
  if choice packet.header then (true, packet, .waitPayloadSkip) else (false, packet, state)

def Waiting (parser : RoCommLinkParser) : Prop := parser.state = .waitStartOfTransmission

instance (parser : RoCommLinkParser) : Decidable (Waiting parser) := inferInstanceAs (Decidable (_ = _))

/-- The parser waits for a start marker after the last byte of the frame and after no earlier one. -/
def Aligned (parser : RoCommLinkParser) (packet : Packet) : Prop :=
  Waiting (parse parser (serialize packet)).1 ∧
    ∀ k, 0 < k → k < (serialize packet).length → ¬Waiting (parse parser ((serialize packet).take k)).1

section Ignored

variable {parser : RoCommLinkParser} {packet : Packet}

theorem skipFilter_ignores {choice : PacketHeader → Bool} {header : PacketHeader} (kept : choice header = false) :
    Ignores (some (skipFilter choice)) header := by
  intro filter found packet state own
  obtain rfl := Option.some.inj found
  simp [skipFilter, own, kept]

theorem avoids_opening (idle : parser.state = .waitStartOfTransmission) (magic : Marker packet.header.magic) :
    Transducer.Avoids parseByte Waiting parser (opening packet) := by
  have marker : packet.header.magic = 0x5A ∨ packet.header.magic = 0xAA := magic
  obtain ⟨state, current, length, count, buffer, filter⟩ := parser
  obtain rfl : state = .waitStartOfTransmission := idle
  unfold opening
  repeat' apply Transducer.Avoids.cons
  all_goals simp [parseByte, marker, Waiting, Transducer.Avoids.nil]

theorem avoids_payload {bytes : List UInt8} (state : parser.state = .waitPayloadData)
    (size : parser.bytesRead.toNat + bytes.length ≤ parser.payloadLength.toNat) :
    Transducer.Avoids parseByte Waiting parser bytes := by
  induction bytes generalizing parser with
  | nil => exact Transducer.Avoids.nil
  | cons byte bytes ih =>
      rw [List.length_cons] at size
      have below : parser.bytesRead.toNat < parser.payloadLength.toNat := by omega
      have count := count_succ below
      have step := parseByte_payload state (Eq.refl (parser.currentPacket.payload.set parser.bytesRead.toNat byte))
      by_cases last : parser.bytesRead + 1 ≥ parser.payloadLength
      · rw [if_pos last] at step
        rw [ge_iff_le, UInt8.le_iff_toNat_le, count] at last
        obtain rfl : bytes = [] := List.eq_nil_of_length_eq_zero (by omega)
        refine Transducer.Avoids.cons ?_ Transducer.Avoids.nil
        rw [step]
        exact nofun
      · rw [if_neg last] at step
        refine Transducer.Avoids.cons ?_ ?_
        all_goals rw [step]
        · exact fun waiting => State.noConfusion (state.symm.trans waiting)
        · refine ih state ?_
          show (parser.bytesRead + 1).toNat + bytes.length ≤ parser.payloadLength.toNat
          omega

theorem avoids_middle (ignores : Ignores parser.earlyFilter (received packet).header)
    (short : packet.payload.length ≤ 255) :
    Transducer.Avoids parseByte Waiting (opened parser packet) (lowByte (payloadLen packet) :: packet.payload) := by
  have asked : (headed parser packet).executeEarlyFilter = (false, headed parser packet) := Ignores.execute ignores
  by_cases empty : packet.payload = []
  · rw [empty]
    refine Transducer.Avoids.cons ?_ Transducer.Avoids.nil
    rw [parseByte_empty parser empty]
    exact nofun
  · have length := parseByte_length parser packet
    rw [if_pos (low_pos empty short), asked] at length
    refine Transducer.Avoids.cons ?_ ?_
    all_goals rw [length]
    · exact nofun
    · refine avoids_payload rfl ?_
      show 0 + packet.payload.length ≤ (lowByte (payloadLen packet)).toNat
      rw [low_payloadLen short]
      exact Nat.le_of_eq (Nat.zero_add packet.payload.length)

theorem avoids_frame (idle : parser.state = .waitStartOfTransmission) (magic : Marker packet.header.magic)
    (ignores : Ignores parser.earlyFilter (received packet).header) (short : packet.payload.length ≤ 255) :
    Transducer.Avoids parseByte Waiting parser
      (opening packet ++ (lowByte (payloadLen packet) :: packet.payload ++
        [highByte (calculateChecksum (body packet))])) := by
  have begins : (Transducer.feed parseByte parser (opening packet)).1 = opened parser packet :=
    congrArg Prod.fst (parse_opening idle magic)
  have gathers : (Transducer.feed parseByte (opened parser packet)
      (lowByte (payloadLen packet) :: packet.payload)).1 = filled parser packet :=
    congrArg Prod.fst (parse_middle ignores short)
  refine Transducer.Avoids.append (avoids_opening idle magic) ?_
  rw [begins]
  refine Transducer.Avoids.append (avoids_middle ignores short) ?_
  rw [gathers]
  refine Transducer.Avoids.cons ?_ Transducer.Avoids.nil
  rw [parseByte_high ignores]
  exact nofun

theorem aligned_of_ignored (idle : parser.state = .waitStartOfTransmission) (magic : Marker packet.header.magic)
    (ignores : Ignores parser.earlyFilter (received packet).header) (short : packet.payload.length ≤ 255) :
    Aligned parser packet := by
  refine ⟨?_, ?_⟩
  · rw [parse_ignored idle magic ignores short]
    rfl
  · intro k positive bound
    have whole : serialize packet = (opening packet ++ (lowByte (payloadLen packet) :: packet.payload ++
        [highByte (calculateChecksum (body packet))])) ++ [lowByte (calculateChecksum (body packet))] := by
      rw [serialize_eq, trailer]
      simp
    rw [whole, List.length_append, List.length_singleton] at bound
    rw [whole, List.take_append_of_le_length (Nat.le_of_lt_succ bound)]
    exact avoids_frame idle magic ignores short k positive (Nat.le_of_lt_succ bound)

end Ignored

section Skipped

variable {choice : PacketHeader → Bool} {parser : RoCommLinkParser} {packet : Packet}

structure Skips (choice : PacketHeader → Bool) (parser : RoCommLinkParser) : Prop where
  filter : parser.earlyFilter = some (skipFilter choice)
  chosen : choice parser.currentPacket.header = true
  state : parser.state = .waitPayloadSkip ∨ parser.state = .waitChecksumVerification ∧ parser.bytesRead = 0

theorem skipFilter_skips (filter : parser.earlyFilter = some (skipFilter choice))
    (chosen : choice parser.currentPacket.header = true) :
    parser.executeEarlyFilter = (true, { parser with state := .waitPayloadSkip }) := by
  unfold executeEarlyFilter
  rw [filter]
  simp only [skipFilter, if_pos chosen]

theorem Skips.step (skips : Skips choice parser) (byte : UInt8) : Skips choice (parseByte parser byte).1 := by
  obtain ⟨filter, chosen, state⟩ := skips
  rcases state with skipping | ⟨checking, first⟩
  · simp only [parseByte, skipping]
    split_ifs
    · exact ⟨filter, chosen, .inr ⟨rfl, rfl⟩⟩
    · exact ⟨filter, chosen, .inl rfl⟩
  · have asked := @skipFilter_skips choice
      { parser with currentPacket := { parser.currentPacket with checksum := byte.toUInt16 <<< 8 }, bytesRead := 1 }
      filter chosen
    simp only [parseByte, checking, first, if_true] at asked ⊢
    rw [asked]
    exact ⟨filter, chosen, .inl rfl⟩

theorem Skips.never_waits (skips : Skips choice parser) (bytes : List UInt8) : ¬Waiting (parse parser bytes).1 := by
  have kept : ∀ other byte, Skips choice other → Skips choice (parseByte other byte).1 ∧ True :=
    fun _ byte skips => ⟨skips.step byte, trivial⟩
  obtain ⟨inv, _⟩ := Transducer.feed_invariant (P := fun _ => True) kept skips bytes
  intro waiting
  rcases inv.state with skipping | ⟨checking, _⟩
  · exact State.noConfusion (waiting.symm.trans skipping)
  · exact State.noConfusion (waiting.symm.trans checking)

theorem skips_after_length (filter : parser.earlyFilter = some (skipFilter choice))
    (chosen : choice (received packet).header = true) (short : packet.payload.length ≤ 255) :
    Skips choice (parseByte (opened parser packet) (lowByte (payloadLen packet))).1 := by
  by_cases empty : packet.payload = []
  · rw [parseByte_empty parser empty]
    exact ⟨filter, chosen, .inr ⟨rfl, rfl⟩⟩
  · have asked := @skipFilter_skips choice (headed parser packet) filter chosen
    rw [parseByte_length, if_pos (low_pos empty short), asked]
    exact ⟨filter, chosen, .inl rfl⟩

theorem not_waiting_of_chosen (idle : parser.state = .waitStartOfTransmission)
    (filter : parser.earlyFilter = some (skipFilter choice)) (magic : Marker packet.header.magic)
    (chosen : choice (received packet).header = true) (short : packet.payload.length ≤ 255) (after : List UInt8) :
    ¬Waiting (parse parser (serialize packet ++ after)).1 := by
  have begins : (Transducer.feed parseByte parser (opening packet)).1 = opened parser packet :=
    congrArg Prod.fst (parse_opening idle magic)
  have stuck := (skips_after_length filter chosen short).never_waits (packet.payload ++ trailer packet ++ after)
  rw [serialize_eq, parse, List.append_assoc, Transducer.feed_append, begins]
  exact stuck

end Skipped

theorem aligned_iff {choice : PacketHeader → Bool} {parser : RoCommLinkParser} {packet : Packet}
    (idle : parser.state = .waitStartOfTransmission) (filter : parser.earlyFilter = some (skipFilter choice))
    (magic : Marker packet.header.magic) (short : packet.payload.length ≤ 255) :
    Aligned parser packet ↔ choice (received packet).header = false := by
  constructor
  · intro aligned
    by_contra chosen
    have stuck := not_waiting_of_chosen idle filter magic (Bool.of_not_eq_false chosen) short []
    rw [List.append_nil] at stuck
    exact stuck aligned.1
  · intro kept
    exact aligned_of_ignored idle magic (filter ▸ skipFilter_ignores kept) short

theorem aligned_iff_own :
    let packet : Packet := { header := { systemId := 1 }, payload := [7, 8] }
    Aligned { earlyFilter := some (skipFilter fun header => header.systemId != 1) } packet :=
  (aligned_iff rfl rfl (Or.inl rfl) (by decide)).mpr rfl

theorem skipped_not_aligned :
    let packet : Packet := { header := { systemId := 2 }, payload := [7, 8] }
    ¬Aligned { earlyFilter := some (skipFilter fun header => header.systemId != 1) } packet := by
  intro packet aligned
  exact absurd aligned.1 (by decide +kernel)

end KnowledgeAcquisition.Proof.RoCommLink
