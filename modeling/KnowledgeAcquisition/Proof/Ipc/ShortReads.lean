import KnowledgeAcquisition.Proof.Ipc.PosixPipe

/-!
# Short reads

A stream of packets under a kernel that may hand over less than a read asks for. A call that is not given its packet
whole has taken bytes off the pipe all the same.
-/

namespace KnowledgeAcquisition.Proof.Ipc
open KnowledgeAcquisition.Ipc Library

structure Packet extends Received where
  size : header.payloadSize.toNat = payload.length

def Packet.bytes (packet : Packet) : List UInt8 := packet.header.toBytes ++ packet.payload

def packetSent (hasCheckSum : Bool) (pools : Pools) (call : SendCall) : Packet where
  header := (send hasCheckSum pools call).1
  payload := call.payload.buffer.payload
  size := by rw [(send_header hasCheckSum pools call).2.2, buffer_payload_length]

def packetsSent (hasCheckSum : Bool) (pools : Pools) : List SendCall → List Packet
  | [] => []
  | call :: calls => packetSent hasCheckSum pools call :: packetsSent hasCheckSum (send hasCheckSum pools call).2 calls

theorem iov_eq_bytes (hasCheckSum : Bool) (pools : Pools) (call : SendCall) :
    iov (send hasCheckSum pools call).1 call.payload = (packetSent hasCheckSum pools call).bytes := by
  rw [iov_eq_append (send_header hasCheckSum pools call).2.2]
  rfl

theorem sendAll_eq_flatMap (hasCheckSum : Bool) (pools : Pools) (calls : List SendCall) :
    sendAll hasCheckSum pools [] calls = (packetsSent hasCheckSum pools calls).flatMap Packet.bytes := by
  induction calls generalizing pools with
  | nil => rfl
  | cons call calls ih => rw [sendAll_cons, iov_eq_bytes, ih, packetsSent, List.flatMap_cons]

structure Whole (packet : Packet) (results : ReadResults) : Prop where
  header : PacketHeader.size ≤ results.header
  positive : 0 < packet.payload.length
  payload : packet.payload.length ≤ results.payload

section Call

variable (packet : Packet) (results : ReadResults) (rest : List UInt8) (out : Received)

theorem headerOf_bytes : headerOf (packet.bytes ++ rest) = packet.header := by
  rw [headerOf, Packet.bytes, List.append_assoc, List.take_left' (header_toBytes_length _)]
  simpa using header_ofBytes_toBytes packet.header []

theorem drop_header : (packet.bytes ++ rest).drop PacketHeader.size = packet.payload ++ rest := by
  rw [Packet.bytes, List.append_assoc, List.drop_left' (header_toBytes_length _)]

theorem payloadOf_bytes : payloadOf (packet.bytes ++ rest) = packet.payload := by
  rw [payloadOf, headerOf_bytes, drop_header, List.take_left' packet.size.symm]

theorem complete_iff_whole : Complete (fun _ => results.header) (fun _ => results.payload) (packet.bytes ++ rest) ↔
    Whole packet results := by
  constructor
  · rintro ⟨_, header, positive, _, payload⟩
    rw [headerOf_bytes] at positive payload
    exact ⟨header, packet.size ▸ UInt32.lt_iff_toNat_lt.mp positive, packet.size ▸ payload⟩
  · rintro ⟨header, positive, payload⟩
    refine ⟨?_, header, ?_, ?_, ?_⟩
    · rw [Packet.bytes, List.append_assoc, List.length_append, header_toBytes_length]
      exact Nat.le_add_right _ _
    · rw [headerOf_bytes]
      exact UInt32.lt_iff_toNat_lt.mpr (packet.size ▸ positive)
    · rw [payloadOf_bytes, headerOf_bytes, packet.size]
    · rw [headerOf_bytes, packet.size]
      exact payload

theorem receiveStream_whole {packet : Packet} {results : ReadResults} (whole : Whole packet results) :
    receiveStream (fun _ => results.header) (fun _ => results.payload) (packet.bytes ++ rest) out =
      (true, packet.toReceived, rest) := by
  have complete := (complete_iff_whole packet results rest).mpr whole
  obtain ⟨received, delivered⟩ := @receiveStream_complete _ _ _ out complete
  rw [headerOf_bytes, payloadOf_bytes] at delivered
  refine Prod.ext received (Prod.ext delivered ?_)
  have positive := complete.positive
  rw [receiveStream_headed complete.header complete.headerRead]
  dsimp only
  rw [if_pos positive, readv_granted complete.payloadRead, headerOf_bytes, drop_header, List.drop_left' packet.size.symm]

theorem receiveStream_consumes {pipe : List UInt8} (nonempty : 0 < pipe.length) :
    (receiveStream (fun _ => results.header) (fun _ => results.payload) pipe out).2.2.length < pipe.length := by
  have positive := results.header_pos
  have first : (readv (fun _ => results.header) PacketHeader.size pipe).2.length < pipe.length := by
    rw [readv, List.splitAt_eq, List.length_drop, PacketHeader.size]
    omega
  have second : ∀ requested, (readv (fun _ => results.payload) requested
      (readv (fun _ => results.header) PacketHeader.size pipe).2).2.length < pipe.length := by
    intro requested
    rw [readv, List.splitAt_eq, List.length_drop]
    omega
  unfold receiveStream
  dsimp only
  split
  · exact first
  · split
    · exact second _
    · exact first

end Call

/-! ## Runs -/

/-- After every call the pipe is at the start of a packet, and those before it have been delivered. -/
def InStep (pipe : List UInt8) (sent : List Packet) (results : List ReadResults) (out : Received) : Prop :=
  ∀ calls, ∃ k ≤ sent.length, receiveCalls (results.take calls) pipe out =
    ((sent.take k).map Packet.toReceived, (sent.drop k).flatMap Packet.bytes)

theorem receiveCalls_nil (results : List ReadResults) (out : Received) : receiveCalls results [] out = ([], []) := by
  induction results generalizing out with
  | nil => rfl
  | cons result results ih =>
      have stopped : receiveStream (fun _ => result.header) (fun _ => result.payload) [] out =
          (false, { out with header := PacketHeader.ofBytes (overlay [] out.header.toBytes) }, []) := by
        simp [receiveStream, readv, PacketHeader.size]
      rw [receiveCalls, stopped]
      dsimp only
      rw [ih]
      rfl

theorem inStep_nil (results : List ReadResults) (out : Received) : InStep [] [] results out := fun calls =>
  ⟨0, Nat.le_refl 0, receiveCalls_nil (results.take calls) out⟩

theorem receiveCalls_whole {packet : Packet} {result : ReadResults} (whole : Whole packet result)
    (results : List ReadResults) (sent : List Packet) (out : Received) :
    receiveCalls (result :: results) ((packet :: sent).flatMap Packet.bytes) out =
      (packet.toReceived :: (receiveCalls results (sent.flatMap Packet.bytes) packet.toReceived).1,
        (receiveCalls results (sent.flatMap Packet.bytes) packet.toReceived).2) := by
  rw [receiveCalls, List.flatMap_cons, receiveStream_whole _ _ whole]
  rfl

theorem inStep_cons_of_whole {packet : Packet} {result : ReadResults} (whole : Whole packet result)
    (results : List ReadResults) (sent : List Packet) (out : Received) :
    InStep ((packet :: sent).flatMap Packet.bytes) (packet :: sent) (result :: results) out ↔
      InStep (sent.flatMap Packet.bytes) sent results packet.toReceived := by
  constructor
  · intro inStep calls
    obtain ⟨k, within, run⟩ := inStep (calls + 1)
    rw [List.take_succ_cons, receiveCalls_whole whole] at run
    obtain ⟨delivered, unread⟩ := Prod.ext_iff.mp run
    cases k with
    | zero => cases delivered
    | succ k => exact ⟨k, Nat.le_of_succ_le_succ within, Prod.ext (List.cons.inj delivered).2 unread⟩
  · intro inStep calls
    cases calls with
    | zero => exact ⟨0, Nat.zero_le _, rfl⟩
    | succ calls =>
        obtain ⟨k, within, run⟩ := inStep calls
        refine ⟨k + 1, Nat.succ_le_succ within, ?_⟩
        rw [List.take_succ_cons, receiveCalls_whole whole, run]
        rfl

theorem whole_of_inStep {packet : Packet} {result : ReadResults} {results : List ReadResults} {sent : List Packet}
    {out : Received} (inStep : InStep ((packet :: sent).flatMap Packet.bytes) (packet :: sent) (result :: results) out) : Whole packet result := by
  by_contra partly
  obtain ⟨k, _, run⟩ := inStep 1
  have refused : (receiveStream (fun _ => result.header) (fun _ => result.payload)
      ((packet :: sent).flatMap Packet.bytes) out).1 = false := by
    rw [← Bool.not_eq_true, List.flatMap_cons, received_iff, complete_iff_whole]
    exact partly
  rw [List.take_succ_cons, List.take_zero, receiveCalls] at run
  dsimp only [receiveCalls] at run
  rw [refused] at run
  obtain ⟨delivered, unread⟩ := Prod.ext_iff.mp run
  cases k with
  | succ k => cases delivered
  | zero =>
      have something : 0 < ((packet :: sent).flatMap Packet.bytes).length := by
        rw [List.flatMap_cons, Packet.bytes, List.append_assoc, List.length_append, header_toBytes_length]
        exact Nat.add_pos_left (by decide) _
      have shorter := receiveStream_consumes result out something
      rw [show _ = _ from unread] at shorter
      exact absurd shorter (Nat.lt_irrefl _)

theorem inStep_iff (sent : List Packet) (results : List ReadResults) (out : Received) :
    InStep (sent.flatMap Packet.bytes) sent results out ↔ ∀ pair ∈ sent.zip results, Whole pair.1 pair.2 := by
  induction sent generalizing results out with
  | nil => exact ⟨fun _ => nofun, fun _ => inStep_nil results out⟩
  | cons packet sent ih =>
      cases results with
      | nil => exact ⟨fun _ => by simp, fun _ calls => ⟨0, Nat.zero_le _, by simp [receiveCalls]⟩⟩
      | cons result results =>
          rw [List.zip_cons_cons, List.forall_mem_cons]
          constructor
          · intro inStep
            have whole := whole_of_inStep inStep
            exact ⟨whole, (ih results _).mp ((inStep_cons_of_whole whole results sent out).mp inStep)⟩
          · rintro ⟨whole, later⟩
            exact (inStep_cons_of_whole whole results sent out).mpr ((ih results _).mpr later)

theorem mem_zip_packetsSent {hasCheckSum : Bool} {pools : Pools} {calls : List SendCall} {results : List ReadResults} :
    (∀ pair ∈ (packetsSent hasCheckSum pools calls).zip results, Whole pair.1 pair.2) ↔
      ∀ pair ∈ calls.zip results, PacketHeader.size ≤ pair.2.header ∧
        0 < pair.1.payload.buffer.payloadSize ∧ pair.1.payload.buffer.payloadSize.toNat ≤ pair.2.payload := by
  induction calls generalizing pools results with
  | nil => exact ⟨fun _ => nofun, fun _ => nofun⟩
  | cons call calls ih =>
      cases results with
      | nil => simp
      | cons result results =>
          have length : (packetSent hasCheckSum pools call).payload.length = call.payload.buffer.payloadSize.toNat :=
            buffer_payload_length _
          have first : Whole (packetSent hasCheckSum pools call) result ↔ PacketHeader.size ≤ result.header ∧
              0 < call.payload.buffer.payloadSize ∧ call.payload.buffer.payloadSize.toNat ≤ result.payload := by
            rw [UInt32.lt_iff_toNat_lt, UInt32.toNat_zero, ← length]
            exact ⟨fun whole => ⟨whole.header, whole.positive, whole.payload⟩, fun ⟨header, positive, payload⟩ =>
              ⟨header, positive, payload⟩⟩
          rw [packetsSent, List.zip_cons_cons, List.zip_cons_cons, List.forall_mem_cons, List.forall_mem_cons, first, ih]

theorem receive_in_step_iff (hasCheckSum : Bool) (pools : Pools) (calls : List SendCall) (results : List ReadResults)
    (out : Received) :
    InStep (sendAll hasCheckSum pools [] calls) (packetsSent hasCheckSum pools calls) results out ↔
      ∀ pair ∈ calls.zip results, PacketHeader.size ≤ pair.2.header ∧
        0 < pair.1.payload.buffer.payloadSize ∧ pair.1.payload.buffer.payloadSize.toNat ≤ pair.2.payload := by
  rw [sendAll_eq_flatMap, inStep_iff, mem_zip_packetsSent]

def letterMessage : SendCall where
  type := .text
  payload := .cached .string ⟨4096, [97], fun null => absurd null (by decide)⟩
  seq := 1
  now := 0

/-- After a first read of one byte, 22 bytes of the 23 are unread, and there is no packet that long. -/
theorem short_header_out_of_step : ¬ InStep (sendAll false (fun _ => {}) [] [letterMessage])
    (packetsSent false (fun _ => {}) [letterMessage]) [⟨1, 1, Nat.one_pos, Nat.one_pos⟩]
    ⟨PacketHeader.ofBytes [], []⟩ := by
  intro inStep
  obtain ⟨k, within, run⟩ := inStep 1
  have unread := congrArg (fun result => result.2.length) run
  have position : k = 0 ∨ k = 1 := Nat.le_one_iff_eq_zero_or_eq_one.mp within
  rcases position with rfl | rfl
  · revert unread
    decide
  · revert unread
    decide

end KnowledgeAcquisition.Proof.Ipc
