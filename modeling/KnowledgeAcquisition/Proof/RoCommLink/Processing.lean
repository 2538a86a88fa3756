import KnowledgeAcquisition.Proof.RoCommLink.Frame
import KnowledgeAcquisition.RoCommLink.Node

/-!
# Processing a datagram

`process_raw_bytes` feeds a datagram to the parser of its interface and acts on each result. Acting leaves
the parsers alone, so that the two can be taken apart: first the results, then what is done with them.
-/

namespace KnowledgeAcquisition.Proof.RoCommLink
open KnowledgeAcquisition.RoCommLink RoCommLinkParser PacketSerializer Library

variable {node : Node} {connectionId : UInt8} {whole : List UInt8}

@[simp] theorem parser_setParser (node : Node) (connectionId : UInt8) (parser : RoCommLinkParser) :
    (node.setParser connectionId parser).parser connectionId = parser := by
  simp [Node.setParser, Node.parser]

@[simp] theorem setParser_setParser (node : Node) (connectionId : UInt8) (first second : RoCommLinkParser) :
    (node.setParser connectionId first).setParser connectionId second = node.setParser connectionId second := by
  simp [Node.setParser]

theorem handleComplete_setParser (node : Node) (connectionId : UInt8) (parser : RoCommLinkParser)
    (packet : Packet) : (node.setParser connectionId parser).handleComplete packet =
      ((node.handleComplete packet).1.setParser connectionId parser, (node.handleComplete packet).2) := by
  have routes : ∀ ack, (node.setParser connectionId parser).sendPacket ack = node.sendPacket ack := fun _ => rfl
  have calls : (node.setParser connectionId parser).dispatch packet = node.dispatch packet := rfl
  unfold Node.handleComplete
  rw [calls]
  split_ifs
  · cases CommandAckPayload.ofBytes packet.payload <;> rfl
  · simp only [routes]
    cases node.sendPacket _ <;> rfl
  · rfl

theorem handleResult_setParser (node : Node) (connectionId : UInt8) (parser : RoCommLinkParser)
    (result : ParseResult) : (node.setParser connectionId parser).handleResult whole result =
      ((node.handleResult whole result).1.setParser connectionId parser, (node.handleResult whole result).2) := by
  obtain ⟨status, packet⟩ := result
  cases packet with
  | none => cases status <;> rfl
  | some packet =>
      cases status with
      | processing => rfl
      | streamForwardByte => rfl
      | complete => simp only [Node.handleResult, handleComplete_setParser]

theorem feed_processByte {parser final : RoCommLinkParser} {bytes : List UInt8} {results : List ParseResult}
    (parsed : parse parser bytes = (final, results)) :
    Transducer.feed (Node.processByte connectionId whole) (node.setParser connectionId parser) bytes =
      ((Transducer.feed (Node.handleResult whole) node results).1.setParser connectionId final,
        (Transducer.feed (Node.handleResult whole) node results).2) := by
  induction bytes generalizing parser node results with
  | nil =>
      obtain ⟨rfl, rfl⟩ := Prod.mk.inj parsed
      rfl
  | cons byte bytes ih =>
      rw [parse, Transducer.feed_cons] at parsed
      obtain ⟨last, rfl⟩ := Prod.mk.inj parsed
      have step : Node.processByte connectionId whole (node.setParser connectionId parser) byte =
          ((node.handleResult whole (parseByte parser byte).2).1.setParser connectionId (parseByte parser byte).1,
            (node.handleResult whole (parseByte parser byte).2).2) := by
        simp only [Node.processByte, parser_setParser, setParser_setParser, handleResult_setParser]
      rw [Transducer.feed_cons, step, Transducer.feed_cons]
      dsimp only
      rw [ih (Prod.ext last rfl)]
      rfl

theorem processRawBytes_eq {bytes : List UInt8} (nonempty : bytes ≠ []) {final : RoCommLinkParser}
    {results : List ParseResult} (parsed : parse (node.parser connectionId) bytes = (final, results)) :
    node.processRawBytes bytes connectionId =
      ((Transducer.feed (Node.handleResult bytes) node results).1.setParser connectionId final,
        (Transducer.feed (Node.handleResult bytes) node results).2.flatten) := by
  have present : Transducer.feed (Node.processByte connectionId bytes) node bytes =
      Transducer.feed (Node.processByte connectionId bytes)
        (node.setParser connectionId (node.parser connectionId)) bytes := by
    obtain ⟨byte, later, rfl⟩ := List.exists_cons_of_ne_nil nonempty
    simp only [Transducer.feed_cons, Node.processByte, parser_setParser, setParser_setParser]
  simp only [Node.processRawBytes, if_neg nonempty, present, feed_processByte parsed]

theorem feed_processing (node : Node) (count : Nat) :
    Transducer.feed (Node.handleResult whole) node (List.replicate count processing) =
      (node, List.replicate count []) := by
  induction count with
  | zero => rfl
  | succ count ih => exact Transducer.feed_step rfl ih

theorem processRawBytes_single {bytes : List UInt8} (nonempty : bytes ≠ []) {final : RoCommLinkParser}
    {before after : Nat} {result : ParseResult} (parsed : parse (node.parser connectionId) bytes =
      (final, List.replicate before processing ++ result :: List.replicate after processing)) :
    node.processRawBytes bytes connectionId =
      ((node.handleResult bytes result).1.setParser connectionId final, (node.handleResult bytes result).2) := by
  have here : node.handleResult bytes result =
      ((node.handleResult bytes result).1, (node.handleResult bytes result).2) := rfl
  have later := Transducer.feed_step here (feed_processing (node.handleResult bytes result).1 after)
  have acted := Transducer.feed_then (feed_processing node before) later
  rw [processRawBytes_eq nonempty parsed, acted]
  simp

theorem serialize_ne_nil (packet : Packet) : serialize packet ≠ [] := by
  apply List.ne_nil_of_length_pos
  rw [serialize_length]
  omega

theorem processRawBytes_local {packet : Packet}
    (idle : (node.parser connectionId).state = .waitStartOfTransmission) (magic : Marker packet.header.magic)
    (passes : Passes (node.parser connectionId).earlyFilter packet.header.systemId)
    (short : packet.payload.length ≤ 255) :
    node.processRawBytes (serialize packet) connectionId =
      ((node.handleComplete (received packet)).1.setParser connectionId
          (finished (node.parser connectionId) packet),
        .complete (received packet) :: (node.handleComplete (received packet)).2) := by
  have parsed := parse_frame idle magic passes short
  exact @processRawBytes_single _ _ _ (serialize_ne_nil packet) _ _ 0 _ parsed

end KnowledgeAcquisition.Proof.RoCommLink
