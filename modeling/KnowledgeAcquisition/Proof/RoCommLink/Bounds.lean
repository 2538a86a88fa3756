import KnowledgeAcquisition.Proof.RoCommLink.Frame

/-!
# Arbitrary input

What holds of the parser whatever it is fed: the sizes of its buffers, and how long it can stay inside of a
frame that is none.
-/

namespace KnowledgeAcquisition.Proof.RoCommLink
open KnowledgeAcquisition.RoCommLink RoCommLinkParser Library

def Counts (parser : RoCommLinkParser) : Prop :=
  match parser.state with
  | .waitStartOfTransmission => parser.rawFrameBuffer.length ≤ 265
  | .waitSystemIdentifier => parser.bytesRead.toNat ≤ 1 ∧ parser.rawFrameBuffer.length = parser.bytesRead.toNat + 1
  | .waitMessageIdentifierHighByte => parser.bytesRead.toNat = 1 ∧ parser.rawFrameBuffer.length = 3
  | .waitMessageIdentifierLowByte =>
      1 ≤ parser.bytesRead.toNat ∧ parser.bytesRead.toNat ≤ 2 ∧
        parser.rawFrameBuffer.length = parser.bytesRead.toNat + 3
  | .waitPayloadLength => parser.bytesRead.toNat ≤ 3 ∧ parser.rawFrameBuffer.length = parser.bytesRead.toNat + 6
  | .waitPayloadData =>
      parser.bytesRead.toNat < parser.payloadLength.toNat ∧
        parser.currentPacket.payload.length = parser.payloadLength.toNat ∧
        parser.rawFrameBuffer.length = parser.bytesRead.toNat + 10
  | .waitChecksumVerification => parser.bytesRead.toNat ≤ 1 ∧ parser.rawFrameBuffer.length ≤ 265
  | .waitPayloadSkip | .forwardActive => False

structure Bounded (parser : RoCommLinkParser) : Prop where
  noFilter : parser.earlyFilter = none
  counts : Counts parser

/-- At most this many bytes after the next one, a parser inside of a frame is out of it. -/
def remaining (parser : RoCommLinkParser) : Nat :=
  match parser.state with
  | .waitStartOfTransmission => 266
  | .waitPayloadData => parser.payloadLength.toNat - parser.bytesRead.toNat + 1
  | .waitChecksumVerification => 1 - parser.bytesRead.toNat
  | _ => 266 - parser.rawFrameBuffer.length

def Advances (parser next : RoCommLinkParser) : Prop :=
  Bounded next ∧ (next.state = .waitStartOfTransmission ∨ remaining next < remaining parser)

section Steps

variable {packet : Packet} {size count byte : UInt8} {buffer : List UInt8}

theorem advances_header {parser next : RoCommLinkParser} (noFilter : next.earlyFilter = none) (counts : Counts next)
    (here : remaining parser = 266 - parser.rawFrameBuffer.length) (there : remaining next = 266 - next.rawFrameBuffer.length)
    (kept : next.rawFrameBuffer = parser.rawFrameBuffer ++ [byte]) (few : parser.rawFrameBuffer.length < 266) :
    Advances parser next := by
  have grown : next.rawFrameBuffer.length = parser.rawFrameBuffer.length + 1 := by
    rw [kept, List.length_append, List.length_singleton]
  refine ⟨⟨noFilter, counts⟩, .inr ?_⟩
  omega

theorem pushed_length {n : Nat} (byte : UInt8) (length : buffer.length = n) : (buffer ++ [byte]).length = n + 1 := by
  rw [List.length_append, List.length_singleton, length]

theorem toNat_ne {m : UInt8} (other : count ≠ m) : count.toNat ≠ m.toNat := mt UInt8.toNat_inj.mp other

theorem second_count {m : UInt8} (some : m.toNat ≤ count.toNat) (few : count.toNat ≤ m.toNat + 1) (other : count ≠ m) :
    count.toNat = m.toNat + 1 := by
  have apart := toNat_ne other
  omega

theorem last_count (few : count.toNat ≤ 3) (first : count ≠ 0) (second : count ≠ 1) (third : count ≠ 2) :
    count.toNat = 3 := by
  have zero := toNat_ne first
  have one := toNat_ne second
  have two := toNat_ne third
  simp only [UInt8.toNat_zero, UInt8.toNat_one, UInt8.reduceToNat] at zero one two
  omega

theorem advances_version (counts : Counts ⟨.waitSystemIdentifier, packet, size, count, buffer, none⟩) :
    Advances ⟨.waitSystemIdentifier, packet, size, count, buffer, none⟩
      (parseByte ⟨.waitSystemIdentifier, packet, size, count, buffer, none⟩ byte).1 := by
  obtain ⟨few, length⟩ := counts
  dsimp only at few length
  have short : buffer.length < 266 := by omega
  simp only [parseByte]
  split_ifs with first
  · subst first
    exact advances_header rfl ⟨Nat.le_refl 1, pushed_length byte length⟩ rfl rfl rfl short
  · have second : count.toNat = 1 := second_count (Nat.zero_le _) few first
    rw [second] at length
    exact advances_header rfl ⟨second, pushed_length byte length⟩ rfl rfl rfl short

theorem advances_msgId (counts : Counts ⟨.waitMessageIdentifierLowByte, packet, size, count, buffer, none⟩) :
    Advances ⟨.waitMessageIdentifierLowByte, packet, size, count, buffer, none⟩
      (parseByte ⟨.waitMessageIdentifierLowByte, packet, size, count, buffer, none⟩ byte).1 := by
  obtain ⟨some, few, length⟩ := counts
  dsimp only at some few length
  have short : buffer.length < 266 := by omega
  simp only [parseByte]
  split_ifs with first
  · subst first
    exact advances_header rfl ⟨Nat.le_succ 1, Nat.le_refl 2, pushed_length byte length⟩ rfl rfl rfl short
  · have second : count.toNat = 2 := second_count (m := 1) some few first
    rw [second] at length
    exact advances_header rfl ⟨Nat.zero_le 3, pushed_length byte length⟩ rfl rfl rfl short

theorem advances_length (counts : Counts ⟨.waitPayloadLength, packet, size, count, buffer, none⟩) :
    Advances ⟨.waitPayloadLength, packet, size, count, buffer, none⟩
      (parseByte ⟨.waitPayloadLength, packet, size, count, buffer, none⟩ byte).1 := by
  obtain ⟨few, length⟩ := counts
  dsimp only at few length
  have short : buffer.length < 266 := by omega
  simp only [parseByte, executeEarlyFilter]
  split_ifs with first second third some applied
  · subst first
    exact advances_header rfl ⟨(by decide : 1 ≤ 3), pushed_length byte length⟩ rfl rfl rfl short
  · subst second
    exact advances_header rfl ⟨Nat.le_succ 2, pushed_length byte length⟩ rfl rfl rfl short
  · subst third
    exact advances_header rfl ⟨Nat.le_refl 3, pushed_length byte length⟩ rfl rfl rfl short
  · cases applied
  · have last := last_count few first second third
    have wide := UInt8.toNat_lt ((packet.header.payloadLen ||| byte.toUInt16) &&& 0xFF).toUInt8
    rw [last] at length
    refine ⟨⟨rfl, UInt8.lt_iff_toNat_lt.mp some, resize_length _ _, pushed_length byte length⟩, .inr ?_⟩
    simp only [remaining, UInt8.toNat_zero]
    omega
  · have last := last_count few first second third
    have full := pushed_length byte length
    refine ⟨⟨rfl, Nat.zero_le 1, ?_⟩, .inr ?_⟩
    · exact Nat.le_trans (Nat.le_of_eq full) (by omega)
    · simp only [remaining, UInt8.toNat_zero]
      omega

theorem advances_payload (counts : Counts ⟨.waitPayloadData, packet, size, count, buffer, none⟩) :
    Advances ⟨.waitPayloadData, packet, size, count, buffer, none⟩
      (parseByte ⟨.waitPayloadData, packet, size, count, buffer, none⟩ byte).1 := by
  obtain ⟨unfilled, payloadSize, length⟩ := counts
  dsimp only at unfilled payloadSize length
  have below := size.toNat_lt
  have next := count_succ unfilled
  have kept := pushed_length byte length
  simp only [parseByte]
  split_ifs with full
  · refine ⟨⟨rfl, Nat.zero_le 1, ?_⟩, .inr ?_⟩
    · exact Nat.le_trans (Nat.le_of_eq kept) (by omega)
    · simp only [remaining, UInt8.toNat_zero]
      omega
  · rw [ge_iff_le, UInt8.le_iff_toNat_le, Nat.not_le] at full
    refine ⟨⟨rfl, full, List.length_set.trans payloadSize, ?_⟩, .inr ?_⟩
    · exact kept.trans (by rw [next, Nat.add_right_comm])
    · simp only [remaining, next]
      omega

theorem advances_checksum (counts : Counts ⟨.waitChecksumVerification, packet, size, count, buffer, none⟩) :
    Advances ⟨.waitChecksumVerification, packet, size, count, buffer, none⟩
      (parseByte ⟨.waitChecksumVerification, packet, size, count, buffer, none⟩ byte).1 := by
  obtain ⟨-, short⟩ := counts
  simp only [parseByte, executeEarlyFilter]
  split_ifs with first
  · subst first
    exact ⟨⟨rfl, Nat.le_refl 1, short⟩, .inr Nat.one_pos⟩
  · exact ⟨⟨rfl, short⟩, .inl rfl⟩
  · exact ⟨⟨rfl, short⟩, .inl rfl⟩

end Steps

theorem Bounded.advances {parser : RoCommLinkParser} (bounded : Bounded parser) (byte : UInt8) :
    Advances parser (parseByte parser byte).1 := by
  obtain ⟨noFilter, counts⟩ := bounded
  obtain ⟨state, packet, size, count, buffer, filter⟩ := parser
  obtain rfl : filter = none := noFilter
  cases state with
  | waitStartOfTransmission =>
      simp only [parseByte]
      split_ifs
      · exact ⟨⟨rfl, Nat.zero_le 1, rfl⟩, .inr (Nat.lt_add_one 265)⟩
      · exact ⟨⟨rfl, counts⟩, .inl rfl⟩
  | waitSystemIdentifier => exact advances_version counts
  | waitMessageIdentifierHighByte =>
      obtain ⟨second, length⟩ := counts
      refine advances_header rfl ⟨?_, ?_, ?_⟩ rfl rfl rfl (Nat.lt_of_le_of_lt (Nat.le_of_eq length) (by decide))
      · exact Nat.le_of_eq second.symm
      · exact Nat.le_trans (Nat.le_of_eq second) (Nat.le_succ 1)
      · exact (pushed_length byte length).trans (congrArg (· + 3) second.symm)
  | waitMessageIdentifierLowByte => exact advances_msgId counts
  | waitPayloadLength => exact advances_length counts
  | waitPayloadData => exact advances_payload counts
  | waitPayloadSkip => exact counts.elim
  | waitChecksumVerification => exact advances_checksum counts
  | forwardActive => exact counts.elim

theorem Bounded.buffer_length {parser : RoCommLinkParser} (bounded : Bounded parser) :
    parser.rawFrameBuffer.length ≤ 265 := by
  obtain ⟨state, packet, size, count, buffer, filter⟩ := parser
  have counts := bounded.counts
  have below := size.toNat_lt
  cases state <;> simp only [Counts] at counts ⊢ <;> omega

theorem remaining_lt (parser : RoCommLinkParser) : remaining parser < 267 := by
  obtain ⟨state, packet, size, count, buffer, filter⟩ := parser
  have below := size.toNat_lt
  cases state <;> simp only [remaining] <;> omega

theorem parse_bounded (bytes : List UInt8) : Bounded (parse {} bytes).1 := by
  have start : Bounded {} := ⟨rfl, Nat.zero_le 265⟩
  exact (Transducer.feed_invariant (P := fun _ => True)
    (fun _ byte bounded => ⟨(bounded.advances byte).1, trivial⟩) start bytes).1

theorem parse_resynchronises (bytes next : List UInt8) (window : next.length = 267) :
    let parser := (parse {} bytes).1
    parser.rawFrameBuffer.length ≤ 265 ∧
      (parser.state = .waitPayloadData → parser.bytesRead.toNat < parser.currentPacket.payload.length) ∧
      ∃ k, 0 < k ∧ k ≤ 267 ∧ (parse {} (bytes ++ next.take k)).1.state = .waitStartOfTransmission := by
  intro parser
  have bounded : Bounded parser := parse_bounded bytes
  refine ⟨bounded.buffer_length, ?_, ?_⟩
  · intro inside
    have counts := bounded.counts
    simp only [Counts, inside] at counts
    omega
  · have falls : ∀ other byte, Bounded other → Advances other (parseByte other byte).1 :=
      fun other byte bounded => bounded.advances byte
    obtain ⟨k, positive, bound, idle⟩ := Transducer.feed_reaches
      (fun parser => parser.state = .waitStartOfTransmission) remaining falls bounded (window ▸ remaining_lt parser)
    refine ⟨k, positive, window ▸ bound, ?_⟩
    rw [parse, Transducer.feed_append]
    exact idle

theorem parse_resynchronises_zeros :
    ∃ k, 0 < k ∧ k ≤ 267 ∧
      (parse {} ([0x5A] ++ (List.replicate 267 0).take k)).1.state = .waitStartOfTransmission :=
  (parse_resynchronises [0x5A] (List.replicate 267 0) List.length_replicate).2.2

end KnowledgeAcquisition.Proof.RoCommLink
