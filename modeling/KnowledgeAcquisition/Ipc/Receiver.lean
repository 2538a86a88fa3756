import KnowledgeAcquisition.Ipc.Sender

/-!
# Receiving packets

`IPCReceiverBase::receive` of `ipc/ipc_receiver.h`, one definition for each of its two corridors. The
out-parameters belong to the caller and keep what a failed call leaves in them.
-/

namespace KnowledgeAcquisition.Ipc
open Library

structure Received where
  header : PacketHeader
  payload : List UInt8
  deriving DecidableEq, Repr

def writev (pipe bytes : List UInt8) : List UInt8 := pipe ++ bytes

/-- `readv` on a pipe. Of the bytes that are asked for and there, the kernel hands over those it grants. -/
def readv (grant : Nat → Nat) (requested : Nat) (pipe : List UInt8) : List UInt8 × List UInt8 :=
  pipe.splitAt (min requested (grant requested))

def receiveStream (headerGrant payloadGrant : Nat → Nat) (pipe : List UInt8) (out : Received) :
    Bool × Received × List UInt8 :=
  let (headerBytes, pipe) := readv headerGrant PacketHeader.size pipe
  let outHeader := PacketHeader.ofBytes (overlay headerBytes out.header.toBytes)
  if headerBytes.length ≠ PacketHeader.size then
    (false, { out with header := outHeader }, pipe)
  else if 0 < outHeader.payloadSize then
    let outPayload := resizeTo 0 out.payload outHeader.payloadSize.toNat
    let (payloadBytes, pipe) := readv payloadGrant outHeader.payloadSize.toNat pipe
    (payloadBytes.length = outHeader.payloadSize.toNat, ⟨outHeader, overlay payloadBytes outPayload⟩, pipe)
  else (false, { out with header := outHeader }, pipe)

def receive (pipe : List UInt8) (out : Received) : Bool × Received × List UInt8 :=
  receiveStream id id pipe out

def nthReceive : Nat → List UInt8 → Received → Bool × Received
  | 0, pipe, out => ((receive pipe out).1, (receive pipe out).2.1)
  | n + 1, pipe, out => nthReceive n (receive pipe out).2.2 (receive pipe out).2.1

/-- How many bytes the kernel hands over at most in the two reads of one call. A read that returns has a byte. -/
structure ReadResults where
  header : Nat
  payload : Nat
  header_pos : 0 < header
  payload_pos : 0 < payload

def receiveCalls : List ReadResults → List UInt8 → Received → List Received × List UInt8
  | [], pipe, _ => ([], pipe)
  | results :: later, pipe, out =>
      let (ok, out, pipe) := receiveStream (fun _ => results.header) (fun _ => results.payload) pipe out
      let (delivered, pipe) := receiveCalls later pipe out
      (if ok then out :: delivered else delivered, pipe)

def sendAll (hasCheckSum : Bool) (pools : Pools) (pipe : List UInt8) : List SendCall → List UInt8
  | [] => pipe
  | call :: calls =>
      let (header, pools) := send hasCheckSum pools call
      sendAll hasCheckSum pools (writev pipe (iov header call.payload)) calls

/-! ## The datagram corridor -/

/-- `recvmsg` into buffers of some total size: the datagram leaves the socket whole, what does not fit is lost. -/
def recvmsg (capacity : Nat) (datagram : List UInt8) : List UInt8 := datagram.take capacity

def receiveDatagram (socket : List (List UInt8)) (out : Received) : Bool × Received × List (List UInt8) :=
  match socket with
  | [] => (false, out, [])
  | datagram :: rest =>
      let peeked := datagram.take PacketHeader.size
      if peeked.length < PacketHeader.size then (false, out, socket)
      else
        let peekHeader := PacketHeader.ofBytes peeked
        let outPayload := resizeTo 0 out.payload peekHeader.payloadSize.toNat
        let capacity :=
          if 0 < peekHeader.payloadSize then PacketHeader.size + peekHeader.payloadSize.toNat else PacketHeader.size
        let received := recvmsg capacity datagram
        (received.length = PacketHeader.size + peekHeader.payloadSize.toNat,
          ⟨PacketHeader.ofBytes (overlay (received.take PacketHeader.size) out.header.toBytes),
            overlay (received.drop PacketHeader.size) outPayload⟩, rest)

def receiveDatagrams : Nat → List (List UInt8) → Received → List Received × List (List UInt8)
  | 0, socket, _ => ([], socket)
  | n + 1, socket, out =>
      let (ok, out, socket) := receiveDatagram socket out
      let (later, socket) := receiveDatagrams n socket out
      (if ok then out :: later else later, socket)

end KnowledgeAcquisition.Ipc
