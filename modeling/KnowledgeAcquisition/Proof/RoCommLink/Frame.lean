import KnowledgeAcquisition.RoCommLink.Parser

/-!
# Frames

The parser against the serializer. A frame is followed byte by byte: nine header bytes, the low length
byte, which consults the early filter, the payload and the two checksum bytes.
-/

namespace KnowledgeAcquisition.Proof.RoCommLink
open KnowledgeAcquisition.RoCommLink RoCommLinkParser PacketSerializer Library

theorem lowByte_toNat (word : UInt16) : (lowByte word).toNat = word.toNat % 256 := by
  have mask : word.toNat &&& 255 = word.toNat % 256 := Nat.and_two_pow_sub_one_eq_mod word.toNat 8
  simp only [lowByte, UInt16.toNat_toUInt8, UInt16.toNat_and]
  rw [show UInt16.toNat 0xFF = 255 from rfl, mask]
  omega

theorem highByte_toNat (word : UInt16) : (highByte word).toNat = word.toNat / 256 := by
  have small := word.toNat_lt
  have mask : ∀ k, k &&& 255 = k % 256 := fun k => Nat.and_two_pow_sub_one_eq_mod k 8
  simp only [highByte, UInt16.toNat_toUInt8, UInt16.toNat_and, UInt16.toNat_shiftRight]
  rw [show UInt16.toNat 0xFF = 255 from rfl, show UInt16.toNat 8 % 16 = 8 from rfl, mask,
    Nat.shiftRight_eq_div_pow]
  omega

def join (high low : UInt8) : UInt16 := high.toUInt16 <<< 8 ||| low.toUInt16

theorem join_toNat (high low : UInt8) : (join high low).toNat = high.toNat * 256 + low.toNat := by
  have wide := high.toNat_lt
  have small := low.toNat_lt
  simp only [join, UInt16.toNat_or, UInt16.toNat_shiftLeft, UInt8.toNat_toUInt16]
  rw [show UInt16.toNat 8 % 16 = 8 from rfl]
  have shifted : high.toNat <<< 8 % 2 ^ 16 = high.toNat <<< 8 := by
    rw [Nat.shiftLeft_eq]
    omega
  rw [shifted, ← Nat.shiftLeft_add_eq_or_of_lt (by omega), Nat.shiftLeft_eq]

theorem join_bytes (word : UInt16) : (highByte word).toUInt16 <<< 8 ||| (lowByte word).toUInt16 = word := by
  apply UInt16.toNat_inj.mp
  refine (join_toNat (highByte word) (lowByte word)).trans ?_
  rw [highByte_toNat, lowByte_toNat]
  omega

theorem lowByte_join (high low : UInt8) : lowByte (join high low) = low := by
  have small := low.toNat_lt
  apply UInt8.toNat_inj.mp
  rw [lowByte_toNat, join_toNat]
  omega

theorem highByte_join (high low : UInt8) : highByte (join high low) = high := by
  have small := low.toNat_lt
  apply UInt8.toNat_inj.mp
  rw [highByte_toNat, join_toNat]
  omega

def payloadLen (packet : Packet) : UInt16 := UInt16.ofNat packet.payload.length

def received (packet : Packet) : Packet :=
  { packet with header := { packet.header with payloadLen := payloadLen packet }
                checksum := calculateChecksum (body packet) }

def opening (packet : Packet) : List UInt8 :=
  [packet.header.magic, packet.header.version, packet.header.systemId, packet.header.componentId,
   highByte packet.header.msgId, lowByte packet.header.msgId,
   highByte packet.header.sequence, lowByte packet.header.sequence, highByte (payloadLen packet)]

def trailer (packet : Packet) : List UInt8 :=
  [highByte (calculateChecksum (body packet)), lowByte (calculateChecksum (body packet))]

theorem body_eq (packet : Packet) :
    body packet = opening packet ++ lowByte (payloadLen packet) :: packet.payload := rfl

theorem serialize_eq (packet : Packet) :
    serialize packet = opening packet ++ lowByte (payloadLen packet) :: (packet.payload ++ trailer packet) := by
  rw [serialize, body_eq, trailer, body_eq]
  simp

theorem serialize_length (packet : Packet) : (serialize packet).length = packet.payload.length + 12 := by
  simp [serialize_eq, opening, trailer]

theorem low_payloadLen {packet : Packet} (short : packet.payload.length ≤ 255) :
    (lowByte (payloadLen packet)).toNat = packet.payload.length := by
  rw [lowByte_toNat, payloadLen, UInt16.toNat_ofNat_of_lt' (by show _ < 65536; omega)]
  omega

/-- The early filter lets packets for a system through untouched. -/
def Passes (earlyFilter : Option EarlyFilter) (systemId : UInt8) : Prop :=
  ∀ filter ∈ earlyFilter, ∀ packet state, packet.header.systemId = systemId →
    filter packet state = (false, packet, state)

def Ignores (earlyFilter : Option EarlyFilter) (header : PacketHeader) : Prop :=
  ∀ filter ∈ earlyFilter, ∀ packet state, packet.header = header → filter packet state = (false, packet, state)

theorem Passes.ignores {earlyFilter : Option EarlyFilter} {header : PacketHeader}
    (passes : Passes earlyFilter header.systemId) : Ignores earlyFilter header := by
  intro filter found packet state own
  exact passes filter found packet state (congrArg PacketHeader.systemId own)

theorem Ignores.execute {parser : RoCommLinkParser} (ignores : Ignores parser.earlyFilter parser.currentPacket.header) :
    parser.executeEarlyFilter = (false, parser) := by
  unfold executeEarlyFilter
  cases found : parser.earlyFilter with
  | none => rfl
  | some filter =>
      simp only [ignores filter found parser.currentPacket parser.state rfl]
      rw [← found]

/-! ## The states of the parser along a frame -/

section Stages

variable (parser : RoCommLinkParser) (packet : Packet)

def opened : RoCommLinkParser :=
  { parser with
    state := .waitPayloadLength
    currentPacket := { header := { packet.header with payloadLen := (highByte (payloadLen packet)).toUInt16 <<< 8 } }
    bytesRead := 3
    rawFrameBuffer := opening packet }

def headed : RoCommLinkParser :=
  { parser with
    state := .waitPayloadLength
    currentPacket := { header := { packet.header with payloadLen := payloadLen packet } }
    payloadLength := lowByte (payloadLen packet)
    bytesRead := 0
    rawFrameBuffer := opening packet ++ [lowByte (payloadLen packet)] }

def filled : RoCommLinkParser :=
  { headed parser packet with
    state := .waitChecksumVerification
    currentPacket := { header := { packet.header with payloadLen := payloadLen packet }, payload := packet.payload }
    rawFrameBuffer := body packet }

def finished : RoCommLinkParser :=
  { filled parser packet with
    state := .waitStartOfTransmission
    currentPacket := { received packet with payload := [] }
    bytesRead := 1 }

end Stages

section Frame

variable {parser : RoCommLinkParser} {packet : Packet}

theorem parse_opening (idle : parser.state = .waitStartOfTransmission) (magic : Marker packet.header.magic) :
    parse parser (opening packet) = (opened parser packet, List.replicate 9 processing) := by
  have marker : packet.header.magic = 0x5A ∨ packet.header.magic = 0xAA := magic
  obtain ⟨state, current, length, count, buffer, filter⟩ := parser
  obtain rfl : state = .waitStartOfTransmission := idle
  simp [parse, opening, Transducer.feed, parseByte, marker, opened, join_bytes, List.replicate]

theorem parseByte_length (parser : RoCommLinkParser) (packet : Packet) :
    parseByte (opened parser packet) (lowByte (payloadLen packet)) =
      if (0 : UInt8) < lowByte (payloadLen packet) then
        let asked := (headed parser packet).executeEarlyFilter
        if asked.1 then (asked.2, processing)
        else ({ asked.2 with
                currentPacket := { asked.2.currentPacket with
                  payload := resize asked.2.currentPacket.payload asked.2.payloadLength.toNat },
                state := .waitPayloadData }, processing)
      else ({ headed parser packet with state := .waitChecksumVerification }, processing) := by
  simp only [parseByte, opened, join_bytes]
  rfl

theorem parseByte_empty (parser : RoCommLinkParser) {packet : Packet} (empty : packet.payload = []) :
    parseByte (opened parser packet) (lowByte (payloadLen packet)) = (filled parser packet, processing) := by
  have zero : ¬(0 : UInt8) < lowByte (payloadLen packet) := by
    rw [payloadLen, empty]
    decide
  rw [parseByte_length, if_neg zero]
  simp [filled, body_eq, empty, headed]

theorem low_pos {packet : Packet} (nonempty : packet.payload ≠ []) (short : packet.payload.length ≤ 255) :
    (0 : UInt8) < lowByte (payloadLen packet) := by
  rw [UInt8.lt_iff_toNat_lt, low_payloadLen short]
  exact List.length_pos_of_ne_nil nonempty

def stored (parser : RoCommLinkParser) (payload : List UInt8) (byte : UInt8) : RoCommLinkParser :=
  { parser with
    bytesRead := parser.bytesRead + 1
    currentPacket := { parser.currentPacket with payload }
    rawFrameBuffer := parser.rawFrameBuffer ++ [byte] }

theorem parseByte_payload (state : parser.state = .waitPayloadData) {payload : List UInt8} {byte : UInt8}
    (written : parser.currentPacket.payload.set parser.bytesRead.toNat byte = payload) :
    parseByte parser byte =
      if parser.bytesRead + 1 ≥ parser.payloadLength then
        ({ stored parser payload byte with state := .waitChecksumVerification, bytesRead := 0 }, processing)
      else (stored parser payload byte, processing) := by
  simp only [parseByte, state, written, stored]

theorem count_succ {count size : UInt8} (below : count.toNat < size.toNat) : (count + 1).toNat = count.toNat + 1 := by
  have bound := size.toNat_lt
  rw [UInt8.toNat_add]
  show (count.toNat + 1) % 256 = _
  omega

theorem parse_payload {bytes old : List UInt8} (nonempty : bytes ≠ [])
    (state : parser.state = .waitPayloadData) (written : old.length = parser.bytesRead.toNat)
    (size : old.length + bytes.length = parser.payloadLength.toNat)
    (payload : parser.currentPacket.payload = old ++ List.replicate bytes.length 0) :
    parse parser bytes = ({ parser with
        state := .waitChecksumVerification, bytesRead := 0
        currentPacket := { parser.currentPacket with payload := old ++ bytes }
        rawFrameBuffer := parser.rawFrameBuffer ++ bytes },
      List.replicate bytes.length processing) := by
  induction bytes generalizing parser old with
  | nil => exact absurd rfl nonempty
  | cons byte bytes ih =>
      have write : parser.currentPacket.payload.set parser.bytesRead.toNat byte =
          (old ++ [byte]) ++ List.replicate bytes.length 0 := by
        rw [payload, ← written]
        simp [List.replicate_succ]
      have step := parseByte_payload state write
      rw [List.length_cons] at size
      have below : parser.bytesRead.toNat < parser.payloadLength.toNat := by omega
      have count : (parser.bytesRead + 1).toNat = old.length + 1 := by
        rw [count_succ below, written]
      cases bytes with
      | nil =>
          have last : parser.bytesRead + 1 ≥ parser.payloadLength := by
            rw [ge_iff_le, UInt8.le_iff_toNat_le, count]
            exact Nat.le_of_eq size.symm
          rw [if_pos last] at step
          simp [parse, Transducer.feed, step, stored]
      | cons next bytes =>
          have more : ¬parser.bytesRead + 1 ≥ parser.payloadLength := by
            rw [ge_iff_le, UInt8.le_iff_toNat_le, count]
            rw [List.length_cons] at size
            omega
          rw [if_neg more] at step
          have length : (old ++ [byte]).length + (next :: bytes).length = parser.payloadLength.toNat := by
            rw [List.length_append, List.length_singleton]
            omega
          have advanced : (old ++ [byte]).length = (parser.bytesRead + 1).toNat := by
            rw [List.length_append, count, List.length_singleton]
          have rest := @ih (stored parser _ byte) (old ++ [byte]) (List.cons_ne_nil next bytes) state advanced length rfl
          refine Transducer.feed_step step (rest.trans ?_)
          simp [stored]

theorem parseByte_high (ignores : Ignores parser.earlyFilter (received packet).header) :
    parseByte (filled parser packet) (highByte (calculateChecksum (body packet))) =
      ({ filled parser packet with
          currentPacket := { (filled parser packet).currentPacket with
            checksum := (highByte (calculateChecksum (body packet))).toUInt16 <<< 8 }
          bytesRead := 1 }, processing) := by
  have asked : RoCommLinkParser.executeEarlyFilter
      { filled parser packet with
        currentPacket := { (filled parser packet).currentPacket with
          checksum := (highByte (calculateChecksum (body packet))).toUInt16 <<< 8 }
        bytesRead := 1 } = (false, _) := Ignores.execute ignores
  simp only [parseByte, filled, headed] at asked ⊢
  rw [if_pos trivial, asked]

theorem parse_trailer (ignores : Ignores parser.earlyFilter (received packet).header) :
    parse (filled parser packet) (trailer packet) =
      (finished parser packet, [processing, { status := .complete, packet := some (received packet) }]) := by
  refine Transducer.feed_step (parseByte_high ignores) (Transducer.feed_step ?_ rfl)
  simp only [parseByte, filled, headed, join_bytes]
  rw [if_neg (by decide), if_pos trivial]
  rfl

theorem answers_append (size : Nat) (last : ParseResult) :
    List.replicate 9 processing ++ (List.replicate (size + 1) processing ++ [processing, last]) =
      List.replicate (size + 11) processing ++ [last] := by
  rw [show [processing, last] = List.replicate 1 processing ++ [last] from rfl, ← List.append_assoc,
    ← List.append_assoc, List.replicate_append_replicate, List.replicate_append_replicate]
  congr 2
  omega

theorem parse_middle (ignores : Ignores parser.earlyFilter (received packet).header)
    (short : packet.payload.length ≤ 255) :
    parse (opened parser packet) (lowByte (payloadLen packet) :: packet.payload) =
      (filled parser packet, List.replicate (packet.payload.length + 1) processing) := by
  have low := low_payloadLen short
  have asked : (headed parser packet).executeEarlyFilter = (false, headed parser packet) := Ignores.execute ignores
  cases payload : packet.payload with
  | nil => exact Transducer.feed_step (parseByte_empty parser payload) rfl
  | cons byte bytes =>
      have nonempty : packet.payload ≠ [] := by simp [payload]
      have length := parseByte_length parser packet
      rw [if_pos (low_pos nonempty short), asked] at length
      rw [← payload]
      refine Transducer.feed_step length ?_
      refine (@parse_payload _ packet.payload [] nonempty rfl rfl ?_ ?_).trans ?_
      · simp [headed, low]
      · simp [headed, low, resize]
      · simp [filled, body_eq, headed]

theorem parse_ignored (idle : parser.state = .waitStartOfTransmission) (magic : Marker packet.header.magic)
    (ignores : Ignores parser.earlyFilter (received packet).header) (short : packet.payload.length ≤ 255) :
    parse parser (serialize packet) = (finished parser packet,
      List.replicate (packet.payload.length + 11) processing ++
        [{ status := .complete, packet := some (received packet) }]) := by
  have rest := Transducer.feed_then (parse_middle ignores short) (parse_trailer ignores)
  have whole := Transducer.feed_then (parse_opening idle magic) rest
  rw [serialize_eq, parse, ← answers_append]
  exact whole

theorem parse_frame (idle : parser.state = .waitStartOfTransmission) (magic : Marker packet.header.magic)
    (passes : Passes parser.earlyFilter packet.header.systemId) (short : packet.payload.length ≤ 255) :
    parse parser (serialize packet) = (finished parser packet,
      List.replicate (packet.payload.length + 11) processing ++
        [{ status := .complete, packet := some (received packet) }]) :=
  parse_ignored idle magic (Passes.ignores passes) short

theorem parse_noise (idle : parser.state = .waitStartOfTransmission) {noise : List UInt8}
    (quiet : ∀ byte ∈ noise, ¬Marker byte) :
    parse parser noise = (parser, List.replicate noise.length processing) := by
  induction noise with
  | nil => rfl
  | cons byte noise ih =>
      have skipped : parseByte parser byte = (parser, processing) := by
        simp only [parseByte, idle]
        exact if_neg (quiet byte List.mem_cons_self)
      exact Transducer.feed_step skipped (ih fun other member => quiet other (List.mem_cons_of_mem byte member))

end Frame

def segment (entry : Packet × List UInt8) : List UInt8 := serialize entry.1 ++ entry.2

def segmentAnswers (entry : Packet × List UInt8) : List ParseResult :=
  List.replicate ((serialize entry.1).length - 1) processing ++
    { status := .complete, packet := some (received entry.1) } :: List.replicate entry.2.length processing

def stream (lead : List UInt8) (sent : List (Packet × List UInt8)) : List UInt8 := lead ++ sent.flatMap segment

def answers (lead : List UInt8) (sent : List (Packet × List UInt8)) : List ParseResult :=
  List.replicate lead.length processing ++ sent.flatMap segmentAnswers

structure Agrees (got sent : Packet) : Prop where
  magic : got.header.magic = sent.header.magic
  version : got.header.version = sent.header.version
  systemId : got.header.systemId = sent.header.systemId
  componentId : got.header.componentId = sent.header.componentId
  msgId : got.header.msgId = sent.header.msgId
  sequence : got.header.sequence = sent.header.sequence
  payload : got.payload = sent.payload
  payloadLen : got.header.payloadLen.toNat = sent.payload.length

theorem received_agrees {packet : Packet} (fits : packet.payload.length < 65536) :
    Agrees (received packet) packet := by
  refine ⟨rfl, rfl, rfl, rfl, rfl, rfl, rfl, ?_⟩
  exact UInt16.toNat_ofNat_of_lt' fits

theorem parse_frames {parser : RoCommLinkParser} (idle : parser.state = .waitStartOfTransmission)
    (noFilter : parser.earlyFilter = none) {sent : List (Packet × List UInt8)}
    (magic : ∀ entry ∈ sent, Marker entry.1.header.magic)
    (short : ∀ entry ∈ sent, entry.1.payload.length ≤ 255)
    (quiet : ∀ entry ∈ sent, ∀ byte ∈ entry.2, ¬Marker byte) :
    ∃ final, parse parser (sent.flatMap segment) = (final, sent.flatMap segmentAnswers) := by
  induction sent generalizing parser with
  | nil => exact ⟨parser, rfl⟩
  | cons entry sent ih =>
      have passes : Passes parser.earlyFilter entry.1.header.systemId := by
        rw [noFilter]
        exact nofun
      have frame := parse_frame idle (magic entry List.mem_cons_self) passes (short entry List.mem_cons_self)
      have noise := @parse_noise (finished parser entry.1) rfl entry.2 (quiet entry List.mem_cons_self)
      have here := Transducer.feed_then frame noise
      obtain ⟨final, rest⟩ := @ih (finished parser entry.1) rfl noFilter
        (fun other member => magic other (List.mem_cons_of_mem entry member))
        (fun other member => short other (List.mem_cons_of_mem entry member))
        (fun other member => quiet other (List.mem_cons_of_mem entry member))
      refine ⟨final, (Transducer.feed_then here rest).trans ?_⟩
      simp [segmentAnswers, serialize_length]

theorem parseChunks_stream (lead : List UInt8) (sent : List (Packet × List UInt8)) (chunks : List (List UInt8))
    (magic : ∀ entry ∈ sent, Marker entry.1.header.magic)
    (short : ∀ entry ∈ sent, entry.1.payload.length ≤ 255)
    (quietLead : ∀ byte ∈ lead, ¬Marker byte) (quiet : ∀ entry ∈ sent, ∀ byte ∈ entry.2, ¬Marker byte)
    (cut : chunks.flatten = stream lead sent) :
    (parseChunks {} chunks).2 = answers lead sent ∧ ∀ entry ∈ sent, Agrees (received entry.1) entry.1 := by
  refine ⟨?_, fun entry member => received_agrees (by have := short entry member; omega)⟩
  obtain ⟨final, frames⟩ := @parse_frames {} rfl rfl sent magic short quiet
  have noise := @parse_noise {} rfl lead quietLead
  rw [parseChunks, Transducer.feedAll_eq, cut, stream, Transducer.feed_then noise frames]
  rfl

theorem parseChunks_stream_two :
    let first : Packet := { header := { magic := 0xAA, sequence := 7 }, payload := [1, 2] }
    let second : Packet := { header := { msgId := 0x5AAA }, payload := [0x5A, 0xAA, 0x5A] }
    let bytes := stream [0, 1] [(first, [9]), (second, [])]
    (parseChunks {} [bytes.take 5, (bytes.drop 5).take 17, bytes.drop 22]).2 =
      answers [0, 1] [(first, [9]), (second, [])] := by
  intro first second bytes
  refine (parseChunks_stream [0, 1] [(first, [9]), (second, [])] _ ?_ ?_ ?_ ?_ ?_).1
  all_goals decide +kernel

/-! ## Lengths above one byte -/

/-- Exactly one `Complete`, on the last byte, with the payload that was sent. -/
def RoundTrips (parser : RoCommLinkParser) (packet : Packet) : Prop :=
  ∃ earlier got, (parse parser (serialize packet)).2 = earlier ++ [{ status := .complete, packet := some got }] ∧
    (∀ result ∈ earlier, result.status ≠ .complete) ∧
    got.payload = packet.payload ∧ got.header.payloadLen.toNat = packet.payload.length

theorem resize_length (payload : List UInt8) (size : Nat) : (resize payload size).length = size := by
  simp only [resize, List.length_append, List.length_take, List.length_replicate]
  omega

def Narrow (parser : RoCommLinkParser) : Prop :=
  parser.earlyFilter = none ∧
    (parser.state ≠ .waitStartOfTransmission → parser.currentPacket.payload.length ≤ 255)

def Short (result : ParseResult) : Prop :=
  ∀ got, result = { status := .complete, packet := some got } → got.payload.length ≤ 255

theorem parseByte_narrow (parser : RoCommLinkParser) (byte : UInt8) (narrow : Narrow parser) :
    Narrow (parseByte parser byte).1 ∧ Short (parseByte parser byte).2 := by
  obtain ⟨noFilter, bound⟩ := narrow
  by_cases idle : parser.state = .waitStartOfTransmission
  · simp only [parseByte, idle]
    split_ifs
    · exact ⟨⟨noFilter, fun _ => Nat.zero_le 255⟩, nofun⟩
    · exact ⟨⟨noFilter, bound⟩, nofun⟩
  · have small := bound idle
    have kept : ∀ other : RoCommLinkParser, other.earlyFilter = none →
        other.currentPacket.payload.length ≤ 255 → Narrow other := fun _ none short => ⟨none, fun _ => short⟩
    cases state : parser.state with
    | waitStartOfTransmission => exact absurd state idle
    | waitSystemIdentifier =>
        simp only [parseByte, state]
        split_ifs <;> exact ⟨kept _ noFilter small, nofun⟩
    | waitMessageIdentifierHighByte =>
        simp only [parseByte, state]
        exact ⟨kept _ noFilter small, nofun⟩
    | waitMessageIdentifierLowByte =>
        simp only [parseByte, state]
        split_ifs <;> exact ⟨kept _ noFilter small, nofun⟩
    | waitPayloadLength =>
        simp only [parseByte, state, executeEarlyFilter, noFilter]
        split_ifs with _ _ _ _ applied
        · exact ⟨kept _ rfl small, nofun⟩
        · exact ⟨kept _ rfl small, nofun⟩
        · exact ⟨kept _ rfl small, nofun⟩
        · cases applied
        · refine ⟨kept _ rfl ?_, nofun⟩
          rw [resize_length]
          exact Nat.le_of_lt_succ (UInt8.toNat_lt _)
        · exact ⟨kept _ rfl small, nofun⟩
    | waitPayloadData =>
        have stored : (parser.currentPacket.payload.set parser.bytesRead.toNat byte).length ≤ 255 := by
          rwa [List.length_set]
        simp only [parseByte, state]
        split_ifs <;> exact ⟨kept _ noFilter stored, nofun⟩
    | waitPayloadSkip =>
        simp only [parseByte, state]
        split_ifs <;> exact ⟨kept _ noFilter small, nofun⟩
    | waitChecksumVerification =>
        simp only [parseByte, state, executeEarlyFilter, noFilter]
        split_ifs
        · exact ⟨kept _ rfl small, nofun⟩
        · refine ⟨kept _ rfl (Nat.zero_le 255), fun got complete => ?_⟩
          cases complete
          exact small
        · exact ⟨kept _ rfl small, nofun⟩
    | forwardActive =>
        simp only [parseByte, state]
        exact ⟨kept _ noFilter (Nat.zero_le 255), nofun⟩

theorem not_roundTrips_long {parser : RoCommLinkParser} {packet : Packet}
    (idle : parser.state = .waitStartOfTransmission) (noFilter : parser.earlyFilter = none)
    (long : 255 < packet.payload.length) : ¬RoundTrips parser packet := by
  intro trips
  obtain ⟨earlier, got, results, -, payload, -⟩ := trips
  have start : Narrow parser := ⟨noFilter, fun busy => absurd idle busy⟩
  obtain ⟨-, narrow⟩ := Transducer.feed_invariant parseByte_narrow start (serialize packet)
  have member : { status := .complete, packet := some got } ∈ (parse parser (serialize packet)).2 := by
    rw [results]
    simp
  have small := narrow _ member got rfl
  rw [payload] at small
  omega

theorem roundTrips_iff {parser : RoCommLinkParser} {packet : Packet}
    (idle : parser.state = .waitStartOfTransmission) (noFilter : parser.earlyFilter = none)
    (magic : Marker packet.header.magic) (_fits : packet.payload.length ≤ 65535) :
    RoundTrips parser packet ↔ packet.payload.length ≤ 255 := by
  constructor
  · intro trips
    by_contra long
    exact not_roundTrips_long idle noFilter (by omega) trips
  · intro short
    have passes : Passes parser.earlyFilter packet.header.systemId := by
      rw [noFilter]
      exact nofun
    refine ⟨_, received packet, congrArg Prod.snd (parse_frame idle magic passes short), ?_, rfl, ?_⟩
    · intro result member
      rw [List.eq_of_mem_replicate member]
      exact nofun
    · exact (received_agrees (by omega)).payloadLen

theorem roundTrips_iff_acknowledgement :
    let packet : Packet := { header := { msgId := 0x00FF }, payload := [1, 0, 7, 0, 0] }
    RoundTrips {} packet ↔ packet.payload.length ≤ 255 :=
  roundTrips_iff rfl rfl (by decide) (by decide)

/-- A payload of 256 bytes has length byte 0 and is never delivered. -/
theorem long_payload_lost : ¬∀ packet : Packet, Marker packet.header.magic → packet.payload.length ≤ 65535 →
    RoundTrips {} packet := by
  intro trips
  have size : (List.replicate 256 (0 : UInt8)).length = 256 := List.length_replicate
  refine not_roundTrips_long rfl rfl ?_ (trips { payload := List.replicate 256 0 } (Or.inl rfl) ?_)
  · rw [size]
    omega
  · rw [size]
    omega

end KnowledgeAcquisition.Proof.RoCommLink
