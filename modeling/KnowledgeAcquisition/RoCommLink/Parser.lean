import KnowledgeAcquisition.Library.Transducer
import KnowledgeAcquisition.RoCommLink.Packet

/-!
# The byte parser

`RoCommLinkParser` of `core/protocol/rocommlink_parser.cpp`: one call of `parse_byte` is one step, with the
early filter as a function of the packet and the state it is handed by reference.
-/

namespace KnowledgeAcquisition.RoCommLink
open Library

inductive State where
  | waitStartOfTransmission
  | waitSystemIdentifier
  | waitMessageIdentifierHighByte
  | waitMessageIdentifierLowByte
  | waitPayloadLength
  | waitPayloadData
  | waitPayloadSkip
  | forwardActive
  | waitChecksumVerification
  deriving DecidableEq, Repr

inductive ParseStatus where
  | processing
  | complete
  | streamForwardByte
  deriving DecidableEq, Repr

structure ParseResult where
  status : ParseStatus := .processing
  packet : Option Packet := none
  deriving DecidableEq, Repr

/-- What the callback returns, and what it leaves in the packet and the state. -/
abbrev EarlyFilter := Packet → State → Bool × Packet × State

structure RoCommLinkParser where
  state : State := .waitStartOfTransmission
  currentPacket : Packet := {}
  payloadLength : UInt8 := 0
  bytesRead : UInt8 := 0
  rawFrameBuffer : List UInt8 := []
  earlyFilter : Option EarlyFilter := none

namespace RoCommLinkParser

def resize (payload : List UInt8) (size : Nat) : List UInt8 :=
  payload.take size ++ List.replicate (size - payload.length) 0

def executeEarlyFilter (parser : RoCommLinkParser) : Bool × RoCommLinkParser :=
  match parser.earlyFilter with
  | none => (false, parser)
  | some filter =>
      let (applied, currentPacket, state) := filter parser.currentPacket parser.state
      (applied, { parser with currentPacket, state })

def processing : ParseResult := { status := .processing, packet := none }

/-- The parser after `std::move(_current_packet)`: the payload is gone, the rest was copied. -/
def moved (parser : RoCommLinkParser) : RoCommLinkParser :=
  { parser with currentPacket := { parser.currentPacket with payload := [] } }

def parseByte (parser : RoCommLinkParser) (byte : UInt8) : RoCommLinkParser × ParseResult :=
  let packet := parser.currentPacket
  let header := packet.header
  let pushed := { parser with rawFrameBuffer := parser.rawFrameBuffer ++ [byte] }
  match parser.state with
  | .waitStartOfTransmission =>
      if byte = 0x5A ∨ byte = 0xAA then
        ({ parser with currentPacket := { header := { magic := byte } }, rawFrameBuffer := [byte],
                       state := .waitSystemIdentifier, bytesRead := 0 }, processing)
      else (parser, processing)
  | .waitSystemIdentifier =>
      if parser.bytesRead = 0 then
        ({ pushed with currentPacket := { packet with header := { header with version := byte } },
                       bytesRead := 1 }, processing)
      else
        ({ pushed with currentPacket := { packet with header := { header with systemId := byte } },
                       state := .waitMessageIdentifierHighByte }, processing)
  | .waitMessageIdentifierHighByte =>
      ({ pushed with currentPacket := { packet with header := { header with componentId := byte } },
                     state := .waitMessageIdentifierLowByte }, processing)
  | .waitMessageIdentifierLowByte =>
      if parser.bytesRead = 1 then
        ({ pushed with currentPacket := { packet with header := { header with msgId := byte.toUInt16 <<< 8 } },
                       bytesRead := 2 }, processing)
      else
        ({ pushed with
            currentPacket := { packet with header := { header with msgId := header.msgId ||| byte.toUInt16 } },
            state := .waitPayloadLength, bytesRead := 0 }, processing)
  | .waitPayloadLength =>
      if parser.bytesRead = 0 then
        ({ pushed with currentPacket := { packet with header := { header with sequence := byte.toUInt16 <<< 8 } },
                       bytesRead := 1 }, processing)
      else if parser.bytesRead = 1 then
        ({ pushed with
            currentPacket := { packet with header := { header with sequence := header.sequence ||| byte.toUInt16 } },
            bytesRead := 2 }, processing)
      else if parser.bytesRead = 2 then
        ({ pushed with currentPacket := { packet with header := { header with payloadLen := byte.toUInt16 <<< 8 } },
                       bytesRead := 3 }, processing)
      else
        let payloadLen := header.payloadLen ||| byte.toUInt16
        let parser := { pushed with currentPacket := { packet with header := { header with payloadLen } },
                                    payloadLength := (payloadLen &&& 0xFF).toUInt8, bytesRead := 0 }
        if (0 : UInt8) < parser.payloadLength then
          let (applied, parser) := parser.executeEarlyFilter
          if applied then (parser, processing)
          else
            let payload := resize parser.currentPacket.payload parser.payloadLength.toNat
            ({ parser with currentPacket := { parser.currentPacket with payload },
                           state := .waitPayloadData }, processing)
        else ({ parser with state := .waitChecksumVerification }, processing)
  | .waitPayloadData =>
      -- a write past the end of the payload is undefined in the source and lost here
      let payload := packet.payload.set parser.bytesRead.toNat byte
      let parser := { pushed with currentPacket := { packet with payload }, bytesRead := parser.bytesRead + 1 }
      if parser.bytesRead ≥ parser.payloadLength then
        ({ parser with bytesRead := 0, state := .waitChecksumVerification }, processing)
      else (parser, processing)
  | .waitPayloadSkip =>
      let parser := { pushed with bytesRead := parser.bytesRead + 1 }
      if parser.bytesRead.toUInt16 ≥ header.payloadLen then
        ({ parser with bytesRead := 0, state := .waitChecksumVerification }, processing)
      else (parser, processing)
  | .waitChecksumVerification =>
      if parser.bytesRead = 0 then
        let parser := { parser with currentPacket := { packet with checksum := byte.toUInt16 <<< 8 },
                                    bytesRead := 1 }
        (parser.executeEarlyFilter.2, processing)
      else
        let parser := { parser with currentPacket := { packet with checksum := packet.checksum ||| byte.toUInt16 },
                                    state := .waitStartOfTransmission }
        if calculateChecksum parser.rawFrameBuffer = parser.currentPacket.checksum then
          (parser.moved, { status := .complete, packet := some parser.currentPacket })
        else (parser, processing)
  | .forwardActive =>
      let parser := { parser with state := .waitStartOfTransmission }
      (parser.moved, { status := .streamForwardByte, packet := some parser.currentPacket })

def parse (parser : RoCommLinkParser) (bytes : List UInt8) : RoCommLinkParser × List ParseResult :=
  Transducer.feed parseByte parser bytes

def parseChunks (parser : RoCommLinkParser) (chunks : List (List UInt8)) : RoCommLinkParser × List ParseResult :=
  Transducer.feedAll parseByte parser chunks

end RoCommLinkParser

end KnowledgeAcquisition.RoCommLink
