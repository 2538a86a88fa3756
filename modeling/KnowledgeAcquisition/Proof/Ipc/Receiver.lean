import KnowledgeAcquisition.Ipc.Receiver
import KnowledgeAcquisition.Proof.Ipc.Sender

/-!
# Packets across a transport

The receiver against the sender on a pipe, and against arbitrary datagrams on a socket.
-/

namespace KnowledgeAcquisition.Proof.Ipc
open KnowledgeAcquisition.Ipc Library

theorem readv_append {requested : Nat} {front : List UInt8} (exact_ : front.length = requested) (rest : List UInt8) :
    readv id requested (front ++ rest) = (front, rest) := by
  rw [readv, id, Nat.min_self, List.splitAt_eq, List.take_left' exact_, List.drop_left' exact_]

theorem header_overlay (header old : PacketHeader) :
    PacketHeader.ofBytes (overlay header.toBytes old.toBytes) = header := by
  rw [overlay_of_length_eq (by rw [header_toBytes_length, header_toBytes_length])]
  simpa using header_ofBytes_toBytes header []

theorem receive_empty {header : PacketHeader} (empty : ¬ 0 < header.payloadSize) (rest : List UInt8)
    (out : Received) :
    receive (header.toBytes ++ rest) out = (false, { out with header }, rest) := by
  have front := readv_append (header_toBytes_length header) rest
  simp only [receive, receiveStream, front, header_overlay, header_toBytes_length, ne_eq, not_true, if_false, empty]

theorem receive_packet {header : PacketHeader} {payload : List UInt8} (positive : 0 < header.payloadSize)
    (length : payload.length = header.payloadSize.toNat) (rest : List UInt8) (out : Received) :
    receive (header.toBytes ++ (payload ++ rest)) out = (true, ⟨header, payload⟩, rest) := by
  have front := readv_append (header_toBytes_length header) (payload ++ rest)
  have back := readv_append length rest
  have filled : overlay payload (resizeTo 0 out.payload header.payloadSize.toNat) = payload :=
    overlay_of_length_eq (by rw [length, resizeTo_length])
  simp only [receive, receiveStream, front, back, header_overlay, header_toBytes_length, ne_eq, not_true, if_false,
    positive, if_true, filled, length, decide_true]

theorem send_header (hasCheckSum : Bool) (pools : Pools) (call : SendCall) :
    (send hasCheckSum pools call).1.type = call.type ∧
      (send hasCheckSum pools call).1.sequenceId = call.seq ∧
      (send hasCheckSum pools call).1.payloadSize = call.payload.buffer.payloadSize := by
  cases hasCheckSum <;> exact ⟨rfl, rfl, rfl⟩

theorem sendAll_eq (hasCheckSum : Bool) (pools : Pools) (pipe : List UInt8) (calls : List SendCall) :
    sendAll hasCheckSum pools pipe calls = pipe ++ sendAll hasCheckSum pools [] calls := by
  induction calls generalizing pools pipe with
  | nil => simp [sendAll]
  | cons call calls ih =>
      simp only [sendAll]
      rw [ih _ (writev pipe _), ih _ (writev [] _)]
      simp only [writev, List.nil_append, List.append_assoc]

theorem sendAll_cons (hasCheckSum : Bool) (pools : Pools) (call : SendCall) (calls : List SendCall) :
    sendAll hasCheckSum pools [] (call :: calls) = iov (send hasCheckSum pools call).1 call.payload ++
      sendAll hasCheckSum (send hasCheckSum pools call).2 [] calls := by
  exact sendAll_eq hasCheckSum _ (writev [] (iov _ call.payload)) calls

structure Yields (result : Bool × Received) (call : SendCall) : Prop where
  returns : result.1 = true
  type : result.2.header.type = call.type
  sequenceId : result.2.header.sequenceId = call.seq
  payloadSize : result.2.header.payloadSize.toNat = call.payload.buffer.contents.length
  payload : result.2.payload = call.payload.buffer.contents

def Framed (call : SendCall) : Prop :=
  0 < call.payload.buffer.contents.length ∧ call.payload.buffer.contents.length < 2 ^ 32

theorem payloadSize_toNat {buffer : Buffer} (small : buffer.contents.length < 2 ^ 32) :
    buffer.payloadSize.toNat = buffer.contents.length := by
  rw [Buffer.payloadSize, UInt32.toNat_ofNat', Nat.mod_eq_of_lt small]

theorem receive_framed (hasCheckSum : Bool) (pools : Pools) {call : SendCall} (framed : Framed call)
    (rest : List UInt8) (out : Received) :
    receive (iov (send hasCheckSum pools call).1 call.payload ++ rest) out =
      (true, ⟨(send hasCheckSum pools call).1, call.payload.buffer.contents⟩, rest) := by
  have size := payloadSize_toNat framed.2
  have whole : call.payload.buffer.payload = call.payload.buffer.contents := by
    rw [Buffer.payload, size, List.take_length]
  have positive : 0 < (send hasCheckSum pools call).1.payloadSize := by
    rw [(send_header hasCheckSum pools call).2.2, UInt32.lt_iff_toNat_lt, size]
    exact framed.1
  have length : call.payload.buffer.contents.length = (send hasCheckSum pools call).1.payloadSize.toNat := by
    rw [(send_header hasCheckSum pools call).2.2, size]
  rw [iov, if_pos positive, whole, List.append_assoc]
  exact receive_packet positive length rest out

theorem yields_framed (hasCheckSum : Bool) (pools : Pools) {call : SendCall} (framed : Framed call) :
    Yields (true, ⟨(send hasCheckSum pools call).1, call.payload.buffer.contents⟩) call := by
  obtain ⟨type, sequenceId, size⟩ := send_header hasCheckSum pools call
  refine ⟨rfl, type, sequenceId, ?_, rfl⟩
  rw [size, payloadSize_toNat framed.2]

theorem framed_of_yields {hasCheckSum : Bool} {pools : Pools} {call : SendCall} {rest : List UInt8} {out : Received}
    (yields : Yields (nthReceive 0 (iov (send hasCheckSum pools call).1 call.payload ++ rest) out) call) :
    Framed call := by
  have size := (send_header hasCheckSum pools call).2.2
  by_cases positive : 0 < (send hasCheckSum pools call).1.payloadSize
  · have length : call.payload.buffer.payload.length = (send hasCheckSum pools call).1.payloadSize.toNat := by
      rw [buffer_payload_length, size]
    have claimed := yields.payloadSize
    rw [iov, if_pos positive, List.append_assoc, nthReceive, receive_packet positive length] at claimed
    refine ⟨?_, ?_⟩
    · exact claimed ▸ UInt32.lt_iff_toNat_lt.mp positive
    · exact claimed ▸ (send hasCheckSum pools call).1.payloadSize.toNat_lt
  · have returns := yields.returns
    rw [iov, if_neg positive, nthReceive, receive_empty positive] at returns
    cases returns

def Delivered (hasCheckSum : Bool) (pools : Pools) (out : Received) (calls : List SendCall) : Prop :=
  ∀ n call, calls[n]? = some call → Yields (nthReceive n (sendAll hasCheckSum pools [] calls) out) call

theorem delivered_iff_framed (hasCheckSum : Bool) (pools : Pools) (out : Received) (calls : List SendCall) :
    Delivered hasCheckSum pools out calls ↔ ∀ call ∈ calls, Framed call := by
  induction calls generalizing pools out with
  | nil => simp [Delivered]
  | cons call calls ih =>
      constructor
      · intro delivered
        have framed : Framed call := by
          apply framed_of_yields
          have first := delivered 0 call rfl
          rw [sendAll_cons] at first
          exact first
        have later := (ih (send hasCheckSum pools call).2 _).mp fun n next at_ => by
          have result := delivered (n + 1) next at_
          rw [sendAll_cons, nthReceive, receive_framed hasCheckSum pools framed] at result
          exact result
        intro other member
        cases List.mem_cons.mp member with
        | inl same => exact same ▸ framed
        | inr inLater => exact later other inLater
      · intro framed n other at_
        have first := framed call List.mem_cons_self
        rw [sendAll_cons]
        cases n with
        | zero =>
            obtain rfl : call = other := by simpa using at_
            rw [nthReceive, receive_framed hasCheckSum pools first]
            exact yields_framed hasCheckSum pools first
        | succ n =>
            rw [nthReceive, receive_framed hasCheckSum pools first]
            exact (ih _ _).mpr (fun next member => framed next (List.mem_cons_of_mem call member)) n other at_

def emptyMessage : SendCall where
  type := .text
  payload := .cached .string ⟨4096, [], fun _ => rfl⟩
  seq := 777
  now := 0

theorem empty_message_not_delivered :
    ¬ Delivered false (fun _ => {}) ⟨PacketHeader.ofBytes [], []⟩ [emptyMessage] := by
  intro delivered
  have returns := (delivered 0 emptyMessage rfl).returns
  revert returns
  decide

/-! ## Datagrams -/

def headerOf (datagram : List UInt8) : PacketHeader := PacketHeader.ofBytes (datagram.take PacketHeader.size)

def WellFormed (datagram : List UInt8) : Prop :=
  PacketHeader.size ≤ datagram.length ∧
    datagram.length = PacketHeader.size + (headerOf datagram).payloadSize.toNat

instance (datagram : List UInt8) : Decidable (WellFormed datagram) := inferInstanceAs (Decidable (_ ∧ _))

/-- Neither too short for a header nor longer than the header announces. -/
def Fits (datagram : List UInt8) : Prop :=
  PacketHeader.size ≤ datagram.length ∧
    datagram.length ≤ PacketHeader.size + (headerOf datagram).payloadSize.toNat

def packetOf (datagram : List UInt8) : Received := ⟨headerOf datagram, datagram.drop PacketHeader.size⟩

structure CallMeets (datagram : List UInt8) (rest : List (List UInt8)) (out : Received) : Prop where
  removes : (receiveDatagram (datagram :: rest) out).2.2 = rest
  accepts : (receiveDatagram (datagram :: rest) out).1 = true ↔ WellFormed datagram
  yields : (receiveDatagram (datagram :: rest) out).1 = true →
    (receiveDatagram (datagram :: rest) out).2.1 = packetOf datagram

theorem receiveDatagram_short {datagram : List UInt8} (short : datagram.length < PacketHeader.size)
    (rest : List (List UInt8)) (out : Received) :
    receiveDatagram (datagram :: rest) out = (false, out, datagram :: rest) := by
  have peeked : (datagram.take PacketHeader.size).length < PacketHeader.size := by
    rw [List.length_take]
    omega
  simp only [receiveDatagram, peeked, if_true]

theorem receiveDatagram_long {datagram : List UInt8} (long : PacketHeader.size ≤ datagram.length)
    (rest : List (List UInt8)) (out : Received) :
    receiveDatagram (datagram :: rest) out =
      (decide (PacketHeader.size + (headerOf datagram).payloadSize.toNat ≤ datagram.length),
        ⟨headerOf datagram, overlay ((datagram.take (PacketHeader.size + (headerOf datagram).payloadSize.toNat)).drop
          PacketHeader.size) (resizeTo 0 out.payload (headerOf datagram).payloadSize.toNat)⟩, rest) := by
  have peeked : ¬ (datagram.take PacketHeader.size).length < PacketHeader.size := by
    rw [List.length_take]
    omega
  have capacity : ∀ size : UInt32, (if 0 < size then PacketHeader.size + size.toNat else PacketHeader.size) =
      PacketHeader.size + size.toNat := by
    intro size
    split
    case isTrue => rfl
    case isFalse empty =>
        rw [toNat_of_not_pos empty, Nat.add_zero]
  have front : ∀ n, (datagram.take (PacketHeader.size + n)).take PacketHeader.size =
      datagram.take PacketHeader.size := by
    intro n
    rw [List.take_take, Nat.min_eq_left (Nat.le_add_right _ n)]
  have header : overlay (datagram.take PacketHeader.size) out.header.toBytes = datagram.take PacketHeader.size := by
    apply overlay_of_length_eq
    rw [List.length_take, header_toBytes_length, Nat.min_eq_left long]
  have enough : ∀ n, (datagram.take n).length = n ↔ n ≤ datagram.length := by
    intro n
    rw [List.length_take]
    omega
  simp only [receiveDatagram, peeked, if_false, capacity, recvmsg, front, header, enough]
  rfl

theorem callMeets_iff_fits (datagram : List UInt8) (rest : List (List UInt8)) (out : Received) :
    CallMeets datagram rest out ↔ Fits datagram := by
  by_cases long : PacketHeader.size ≤ datagram.length
  · have call := receiveDatagram_long long rest out
    constructor
    · intro meets
      have accepts := meets.accepts
      rw [call] at accepts
      refine ⟨long, Nat.le_of_not_lt fun longer => ?_⟩
      have wellFormed := accepts.mp (decide_eq_true (Nat.le_of_lt longer))
      exact absurd wellFormed.2 (Nat.ne_of_gt longer)
    · intro fits
      refine ⟨by rw [call], ?_, ?_⟩
      · rw [call]
        constructor
        · exact fun enough => ⟨long, Nat.le_antisymm fits.2 (of_decide_eq_true enough)⟩
        · exact fun wellFormed => decide_eq_true (Nat.le_of_eq wellFormed.2.symm)
      · rw [call]
        intro enough
        have length := Nat.le_antisymm fits.2 (of_decide_eq_true enough)
        rw [← length, List.take_length, overlay_of_length_eq]
        · rfl
        · rw [List.length_drop, resizeTo_length, length, Nat.add_sub_cancel_left]
  · have short := receiveDatagram_short (Nat.lt_of_not_le long) rest out
    constructor
    · intro meets
      have removes := meets.removes
      rw [short] at removes
      exact absurd removes (List.cons_ne_self datagram rest)
    · exact fun fits => absurd fits.1 long

def EachCallMeets : List (List UInt8) → Received → Prop
  | [], _ => True
  | datagram :: rest, out =>
      CallMeets datagram rest out ∧ EachCallMeets rest (receiveDatagram (datagram :: rest) out).2.1

def Drained (socket : List (List UInt8)) (out : Received) : Prop :=
  receiveDatagrams socket.length socket out = ((socket.filter fun datagram => WellFormed datagram).map packetOf, [])

theorem drained_of_eachCallMeets {socket : List (List UInt8)} {out : Received} (meets : EachCallMeets socket out) :
    Drained socket out := by
  induction socket generalizing out with
  | nil => rfl
  | cons datagram rest ih =>
      obtain ⟨call, later⟩ := meets
      have drained := ih later
      simp only [Drained, List.length_cons, receiveDatagrams, call.removes] at drained ⊢
      rw [drained]
      cases accepted : (receiveDatagram (datagram :: rest) out).1 with
      | true =>
          have wellFormed := call.accepts.mp accepted
          simp [wellFormed, call.yields accepted]
      | false =>
          have malformed : ¬ WellFormed datagram := fun wellFormed =>
            Bool.false_ne_true (accepted.symm.trans (call.accepts.mpr wellFormed))
          simp [malformed]

theorem datagrams_received_iff_fit (socket : List (List UInt8)) (out : Received) :
    EachCallMeets socket out ∧ Drained socket out ↔ ∀ datagram ∈ socket, Fits datagram := by
  have each : EachCallMeets socket out ↔ ∀ datagram ∈ socket, Fits datagram := by
    induction socket generalizing out with
    | nil => simp [EachCallMeets]
    | cons datagram rest ih => rw [EachCallMeets, callMeets_iff_fits, ih, List.forall_mem_cons]
  constructor
  · exact fun both => each.mp both.1
  · exact fun fit => ⟨each.mpr fit, drained_of_eachCallMeets (each.mpr fit)⟩

/-- One byte, which stays at the head of the socket for ever. -/
theorem short_datagram_not_removed : ¬ EachCallMeets [[0]] ⟨PacketHeader.ofBytes [], []⟩ := by
  intro meets
  have removes := meets.1.removes
  revert removes
  decide

end KnowledgeAcquisition.Proof.Ipc
