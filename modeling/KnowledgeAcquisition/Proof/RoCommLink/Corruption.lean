import KnowledgeAcquisition.Proof.RoCommLink.Frame

/-!
# Frames with a wrong byte

Any sequence of bytes with a start marker in front and its own length in the tenth byte takes the parser once
through a frame, whatever the other bytes are. The checksum decides whether a packet comes out of it.
-/

namespace KnowledgeAcquisition.Proof.RoCommLink
open KnowledgeAcquisition.RoCommLink RoCommLinkParser PacketSerializer Library

theorem checksum_from (sum : UInt16) (bytes : List UInt8) :
    bytes.foldl (fun sum byte => sum + byte.toUInt16) sum = sum + calculateChecksum bytes := by
  induction bytes generalizing sum with
  | nil => exact (UInt16.add_zero sum).symm
  | cons byte bytes ih =>
      rw [calculateChecksum, List.foldl_cons, List.foldl_cons, ih, ih, UInt16.zero_add, UInt16.add_assoc]

theorem checksum_cons (byte : UInt8) (bytes : List UInt8) :
    calculateChecksum (byte :: bytes) = byte.toUInt16 + calculateChecksum bytes := by
  rw [calculateChecksum, List.foldl_cons, checksum_from, UInt16.zero_add]

/-- A byte that is replaced shifts the sum by less than a byte, which is never a multiple of `2 ^ 16`. -/
theorem checksum_set {bytes : List UInt8} {k : Nat} {old new : UInt8} (here : bytes[k]? = some old)
    (same : calculateChecksum (bytes.set k new) = calculateChecksum bytes) : new = old := by
  induction bytes generalizing k with
  | nil => simp at here
  | cons byte bytes ih =>
      cases k with
      | zero =>
          obtain rfl : byte = old := by simpa using here
          rw [List.set_cons_zero, checksum_cons, checksum_cons] at same
          exact UInt8.toUInt16_inj.mp ((UInt16.add_left_inj _).mp same)
      | succ k =>
          rw [List.set_cons_succ, checksum_cons, checksum_cons] at same
          exact ih here ((UInt16.add_right_inj _).mp same)

section Shape

variable {parser : RoCommLinkParser} {start low : UInt8} {head payload : List UInt8}

def begun (parser : RoCommLinkParser) (header : PacketHeader) (bytes : List UInt8) : RoCommLinkParser :=
  { parser with
    state := .waitPayloadLength
    currentPacket := { header }
    bytesRead := 3
    rawFrameBuffer := bytes }

theorem parse_begun (idle : parser.state = .waitStartOfTransmission) (marker : Marker start)
    (eight : head.length = 8) : ∃ (header : PacketHeader) (high : UInt8), header.payloadLen = high.toUInt16 <<< 8 ∧
      parse parser (start :: head) = (begun parser header (start :: head), List.replicate 9 processing) := by
  obtain ⟨state, current, length, count, buffer, filter⟩ := parser
  obtain rfl : state = .waitStartOfTransmission := idle
  match head, eight with
  | [version, systemId, componentId, m₁, m₀, s₁, s₀, high], _ =>
      have taken : start = 0x5A ∨ start = 0xAA := marker
      refine ⟨{ magic := start, version, systemId, componentId, msgId := join m₁ m₀, sequence := join s₁ s₀
                payloadLen := high.toUInt16 <<< 8 }, high, rfl, ?_⟩
      simp [parse, Transducer.feed, parseByte, taken, begun, join, List.replicate]

def gathered (parser : RoCommLinkParser) (got : Packet) (low : UInt8) (bytes : List UInt8) : RoCommLinkParser :=
  { parser with
    state := .waitChecksumVerification
    currentPacket := got
    payloadLength := low
    bytesRead := 0
    rawFrameBuffer := bytes }

theorem parse_gathered (noFilter : parser.earlyFilter = none) {header : PacketHeader} {high : UInt8}
    (length : header.payloadLen = high.toUInt16 <<< 8) (bytes : List UInt8) (size : payload.length = low.toNat) :
    ∃ got, parse (begun parser header bytes) (low :: payload) =
      (gathered parser got low (bytes ++ low :: payload), List.replicate (payload.length + 1) processing) := by
  have low_eq : ((header.payloadLen ||| low.toUInt16) &&& 0xFF).toUInt8 = low := by
    rw [length]
    exact lowByte_join high low
  have step : parseByte (begun parser header bytes) low =
      if (0 : UInt8) < low then
        ({ gathered parser { header := { header with payloadLen := header.payloadLen ||| low.toUInt16 }
                             payload := List.replicate low.toNat 0 } low (bytes ++ [low]) with
            state := .waitPayloadData }, processing)
      else (gathered parser { header := { header with payloadLen := header.payloadLen ||| low.toUInt16 } } low
        (bytes ++ [low]), processing) := by
    simp [parseByte, begun, gathered, low_eq, executeEarlyFilter, noFilter, resize]
  cases payload with
  | nil =>
      have zero : ¬(0 : UInt8) < low := by
        rw [UInt8.lt_iff_toNat_lt, ← size]
        exact Nat.lt_irrefl 0
      rw [if_neg zero] at step
      exact ⟨_, Transducer.feed_step step rfl⟩
  | cons byte rest =>
      have positive : (0 : UInt8) < low := by
        rw [UInt8.lt_iff_toNat_lt, ← size]
        exact Nat.succ_pos rest.length
      rw [if_pos positive] at step
      refine ⟨{ header := { header with payloadLen := header.payloadLen ||| low.toUInt16 }, payload := byte :: rest },
        Transducer.feed_step step ?_⟩
      refine (@parse_payload _ (byte :: rest) [] (List.cons_ne_nil byte rest) rfl rfl ?_ ?_).trans ?_
      · simpa [gathered] using size
      · simp only [gathered, size, List.nil_append]
      · simp [gathered]

theorem parse_rejected (noFilter : parser.earlyFilter = none) (got : Packet) {bytes : List UInt8} {high final : UInt8}
    (mismatch : calculateChecksum bytes ≠ join high final) :
    ∃ last : RoCommLinkParser, last.state = .waitStartOfTransmission ∧
      parse (gathered parser got low bytes) [high, final] = (last, List.replicate 2 processing) := by
  refine ⟨{ gathered parser { got with checksum := join high final } low bytes with
            state := .waitStartOfTransmission, bytesRead := 1 }, rfl, ?_⟩
  have first : parseByte (gathered parser got low bytes) high =
      ({ gathered parser { got with checksum := high.toUInt16 <<< 8 } low bytes with bytesRead := 1 },
        processing) := by
    simp [parseByte, gathered, executeEarlyFilter, noFilter]
  refine Transducer.feed_step first (Transducer.feed_step ?_ rfl)
  have differs : ¬calculateChecksum bytes = high.toUInt16 <<< 8 ||| final.toUInt16 := mismatch
  simp [parseByte, gathered, differs, join]

theorem parse_mismatch (idle : parser.state = .waitStartOfTransmission) (noFilter : parser.earlyFilter = none)
    (marker : Marker start) (eight : head.length = 8) (size : payload.length = low.toNat) {high final : UInt8}
    (mismatch : calculateChecksum ((start :: head) ++ low :: payload) ≠ join high final) :
    ∃ last : RoCommLinkParser, last.state = .waitStartOfTransmission ∧
      parse parser ((start :: head) ++ (low :: payload ++ [high, final])) =
        (last, List.replicate (payload.length + 12) processing) := by
  obtain ⟨header, highLength, length, begins⟩ := parse_begun idle marker eight
  obtain ⟨got, gathers⟩ := parse_gathered noFilter length (start :: head) size
  obtain ⟨last, waits, rejects⟩ := @parse_rejected parser low noFilter got _ high final mismatch
  refine ⟨last, waits, (Transducer.feed_then begins (Transducer.feed_then gathers rejects)).trans ?_⟩
  rw [List.replicate_append_replicate, List.replicate_append_replicate]
  congr 2
  omega

theorem exists_shape {bytes : List UInt8} (first : bytes[0]? = some start) (tenth : bytes[9]? = some low) :
    ∃ head payload, head.length = 8 ∧ bytes.length = payload.length + 10 ∧
      bytes = (start :: head) ++ low :: payload := by
  cases bytes with
  | nil => cases first
  | cons byte rest =>
      obtain rfl : byte = start := by simpa using first
      obtain ⟨inside, here⟩ := List.getElem?_eq_some_iff.mp (show rest[8]? = some low from tenth)
      refine ⟨rest.take 8, rest.drop 9, ?_, ?_, ?_⟩
      · rw [List.length_take]
        omega
      · rw [List.length_cons, List.length_drop]
        omega
      · rw [List.cons_append, ← here, ← List.drop_eq_getElem_cons inside, List.take_append_drop]

end Shape

/-! ## One byte of a frame replaced -/

section Altered

variable {parser : RoCommLinkParser} {packet : Packet} {position : Nat} {value : UInt8}

theorem body_length (packet : Packet) : (body packet).length = packet.payload.length + 10 := by
  simp [body]

theorem parse_wrong (idle : parser.state = .waitStartOfTransmission) (noFilter : parser.earlyFilter = none)
    (magic : Marker packet.header.magic) (short : packet.payload.length ≤ 255) {bytes : List UInt8}
    (length : bytes.length = packet.payload.length + 10) (first : bytes[0]? = some packet.header.magic)
    (tenth : bytes[9]? = some (lowByte (payloadLen packet))) {high final : UInt8}
    (mismatch : calculateChecksum bytes ≠ join high final) :
    (∀ result ∈ (parse parser (bytes ++ [high, final])).2, result.status ≠ .complete) ∧
      (parse parser (bytes ++ [high, final])).1.state = .waitStartOfTransmission := by
  obtain ⟨head, payload, eight, size, rfl⟩ := exists_shape first tenth
  have sized : payload.length = (lowByte (payloadLen packet)).toNat := by
    rw [low_payloadLen short]
    omega
  obtain ⟨last, waits, parsed⟩ := parse_mismatch idle noFilter magic eight sized mismatch
  rw [List.append_assoc, parsed]
  refine ⟨?_, waits⟩
  intro result member
  rw [List.eq_of_mem_replicate member]
  exact nofun

theorem parse_altered_checksum (idle : parser.state = .waitStartOfTransmission) (noFilter : parser.earlyFilter = none)
    (magic : Marker packet.header.magic) (short : packet.payload.length ≤ 255) {high final : UInt8}
    (different : [high, final] ≠ trailer packet) :
    (∀ result ∈ (parse parser (body packet ++ [high, final])).2, result.status ≠ .complete) ∧
      (parse parser (body packet ++ [high, final])).1.state = .waitStartOfTransmission := by
  refine parse_wrong idle noFilter magic short (body_length packet) rfl rfl ?_
  intro same
  refine different ?_
  rw [trailer, same, highByte_join, lowByte_join]

theorem parse_altered (idle : parser.state = .waitStartOfTransmission) (noFilter : parser.earlyFilter = none)
    (magic : Marker packet.header.magic) (short : packet.payload.length ≤ 255)
    (inside : position < (serialize packet).length) (different : (serialize packet)[position]? ≠ some value)
    (notStart : position ≠ 0) (notLength : position ≠ 9) :
    let outcome := parse parser ((serialize packet).set position value)
    (∀ result ∈ outcome.2, result.status ≠ .complete) ∧ outcome.1.state = .waitStartOfTransmission := by
  have whole : serialize packet = body packet ++ trailer packet := rfl
  rw [whole] at inside different ⊢
  rw [List.set_append]
  split
  · rename_i below
    rw [List.getElem?_append_left below, List.getElem?_eq_getElem below] at different
    refine parse_wrong idle noFilter magic short ?_ ?_ ?_ ?_
    · rw [List.length_set, body_length]
    · rw [List.getElem?_set_ne notStart]
      rfl
    · rw [List.getElem?_set_ne notLength]
      rfl
    · intro same
      have kept := same.trans (join_bytes (calculateChecksum (body packet)))
      exact different (congrArg some (checksum_set (List.getElem?_eq_getElem below) kept).symm)
  · rename_i beyond
    have last : position - (body packet).length = 0 ∨ position - (body packet).length = 1 := by
      rw [List.length_append, trailer, List.length_cons, List.length_singleton] at inside
      omega
    rw [List.getElem?_append_right (Nat.le_of_not_lt beyond)] at different
    rcases last with high | low
    · rw [high] at different ⊢
      refine parse_altered_checksum idle noFilter magic short ?_
      intro same
      exact different (congrArg (·[0]?) same.symm)
    · rw [low] at different ⊢
      refine parse_altered_checksum idle noFilter magic short ?_
      intro same
      exact different (congrArg (·[1]?) same.symm)

/-- The high byte of the length is wrong, which leaves the number of payload bytes as it was. -/
theorem parse_altered_length :
    let packet : Packet := { payload := [1, 2, 3] }
    let outcome := parse {} ((serialize packet).set 8 7)
    (∀ result ∈ outcome.2, result.status ≠ .complete) ∧ outcome.1.state = .waitStartOfTransmission := by
  refine @parse_altered {} { payload := [1, 2, 3] } 8 7 rfl rfl ?_ ?_ ?_ ?_ ?_ ?_
  all_goals decide +kernel

end Altered

end KnowledgeAcquisition.Proof.RoCommLink
