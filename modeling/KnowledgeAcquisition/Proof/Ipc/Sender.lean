import KnowledgeAcquisition.Ipc.Sender
import KnowledgeAcquisition.Proof.Ipc.Header
import KnowledgeAcquisition.Library.Ring

/-!
# The checksum cache

The pool is a window over the calls that missed it, the last sixteen of them. What the header carries is the
checksum of the payload with which the address entered the window.
-/

namespace KnowledgeAcquisition.Proof.Ipc
open KnowledgeAcquisition.Ipc Library

def nullBuffer : Buffer := ⟨0, [], fun _ => rfl⟩

def crcOf (buffer : Buffer) : UInt32 := calculateCrc32 buffer.payload

def enter (window : List Buffer) (buffer : Buffer) : List Buffer :=
  if buffer.address ∈ window.map Buffer.address then window else window.tail ++ [buffer]

def entry (buffer : Buffer) : RuntimeStringCache := ⟨buffer.address, crcOf buffer⟩

/-- The slots, read from the one that is overwritten next, are the buffers of the window. -/
structure Tracks (pool : CachePool) (window : List Buffer) : Prop where
  slots : pool.slots.toList.rotate pool.cacheIndex = window.map entry
  coherent : ∀ a ∈ window, ∀ b ∈ window, a.address = b.address → crcOf a = crcOf b

theorem tracks_default : Tracks {} (List.replicate 16 nullBuffer) where
  slots := by decide
  coherent a memberA b memberB _ := by
    rw [List.eq_of_mem_replicate memberA, List.eq_of_mem_replicate memberB]

theorem mem_slots {pool : CachePool} {window : List Buffer} (tracks : Tracks pool window)
    (slot : RuntimeStringCache) : slot ∈ pool.slots.toList ↔ ∃ buffer ∈ window, entry buffer = slot := by
  rw [← List.mem_rotate (n := pool.cacheIndex), tracks.slots, List.mem_map]

theorem checkSum_hit {pool : CachePool} {window : List Buffer} (tracks : Tracks pool window)
    {earlier buffer : Buffer} (member : earlier ∈ window) (same : earlier.address = buffer.address) :
    pool.checkSum buffer = (crcOf earlier, pool) := by
  cases found : pool.slots.toList.find? (fun slot => slot.lastSeenPtr = buffer.address) with
  | none =>
      have absent := List.find?_eq_none.mp found (entry earlier) ((mem_slots tracks _).mpr ⟨earlier, member, rfl⟩)
      exact absurd (decide_eq_true same) absent
  | some slot =>
      obtain ⟨holder, holds, rfl⟩ := (mem_slots tracks slot).mp (List.mem_of_find?_eq_some found)
      have address : holder.address = buffer.address := of_decide_eq_true (List.find?_some found :)
      have crc : crcOf holder = crcOf earlier := tracks.coherent holder holds earlier member (address.trans same.symm)
      simp only [CachePool.checkSum, found, entry, crc]

theorem checkSum_miss {pool : CachePool} {window : List Buffer} (tracks : Tracks pool window) {buffer : Buffer}
    (absent : buffer.address ∉ window.map Buffer.address) :
    pool.checkSum buffer = (crcOf buffer, pool.insert (entry buffer)) := by
  have missing : pool.slots.toList.find? (fun slot => slot.lastSeenPtr = buffer.address) = none := by
    apply List.find?_eq_none.mpr
    intro slot member matches_
    obtain ⟨holder, holds, rfl⟩ := (mem_slots tracks slot).mp member
    exact absent (List.mem_map.mpr ⟨holder, holds, of_decide_eq_true matches_⟩)
  simp only [CachePool.checkSum, missing]
  rfl

theorem tracks_checkSum {pool : CachePool} {window : List Buffer} (tracks : Tracks pool window) (buffer : Buffer) :
    Tracks (pool.checkSum buffer).2 (enter window buffer) := by
  by_cases present : buffer.address ∈ window.map Buffer.address
  · obtain ⟨earlier, member, same⟩ := List.mem_map.mp present
    rw [checkSum_hit tracks member same, enter, if_pos present]
    exact tracks
  · rw [checkSum_miss tracks present, enter, if_neg present]
    refine ⟨?_, ?_⟩
    · have turned := rotate_set pool.slots.toList (i := pool.cacheIndex) (by simp) (entry buffer)
      rw [tracks.slots, Vector.length_toList] at turned
      rw [CachePool.insert, Vector.toList_set, List.map_append, List.map_tail]
      exact turned
    · intro a memberA b memberB same
      have old : ∀ {c}, c ∈ window.tail ++ [buffer] → c ≠ buffer → c ∈ window := by
        intro c member other
        cases List.mem_append.mp member with
        | inl inTail => exact List.mem_of_mem_tail inTail
        | inr last => exact absurd (List.mem_singleton.mp last) other
      by_cases newA : a = buffer <;> by_cases newB : b = buffer
      · rw [newA, newB]
      · exact absurd (List.mem_map.mpr ⟨b, old memberB newB, same.symm.trans (by rw [newA])⟩) present
      · exact absurd (List.mem_map.mpr ⟨a, old memberA newA, same.trans (by rw [newB])⟩) present
      · exact tracks.coherent a (old memberA newA) b (old memberB newB) same

def windowAfter (calls : List TextCall) (type : CachedType) : List Buffer :=
  (calls.filter fun text => text.cachedType = type).foldl (fun window text => enter window text.buffer)
    (List.replicate 16 nullBuffer)

theorem windowAfter_append_self (calls : List TextCall) (text : TextCall) :
    windowAfter (calls ++ [text]) text.cachedType = enter (windowAfter calls text.cachedType) text.buffer := by
  simp [windowAfter, List.filter_append]

theorem windowAfter_append_of_ne (calls : List TextCall) {text : TextCall} {type : CachedType}
    (other : type ≠ text.cachedType) : windowAfter (calls ++ [text]) type = windowAfter calls type := by
  simp [windowAfter, List.filter_append, other.symm]

theorem send_text_pools (pools : Pools) (text : TextCall) : (send true pools text.call).2 =
    Function.update pools text.cachedType ((pools text.cachedType).checkSum text.buffer).2 := rfl

theorem tracks_poolsAfter (calls : List TextCall) (type : CachedType) :
    Tracks (poolsAfter calls type) (windowAfter calls type) := by
  -- Over the calls from the last one back; a call moves the pool of its own type only.
  induction calls using List.reverseRecOn with
  | nil => exact tracks_default
  | append_singleton calls text ih =>
      rw [poolsAfter, List.foldl_append, List.foldl_cons, List.foldl_nil, send_text_pools]
      by_cases own : type = text.cachedType
      · subst own
        rw [Function.update_self, windowAfter_append_self]
        exact tracks_checkSum ih text.buffer
      · rw [Function.update_of_ne own, windowAfter_append_of_ne calls own]
        exact ih

theorem buffer_payload_length (buffer : Buffer) : buffer.payload.length = buffer.payloadSize.toNat := by
  rw [Buffer.payload, List.length_take, Buffer.payloadSize, UInt32.toNat_ofNat']
  exact Nat.min_eq_left (Nat.mod_le _ _)

theorem iov_eq_append {header : PacketHeader} {payload : Payload}
    (size : header.payloadSize = payload.buffer.payloadSize) :
    iov header payload = header.toBytes ++ payload.buffer.payload := by
  rw [iov]
  split
  case isTrue => rfl
  case isFalse empty =>
      have length : payload.buffer.payload.length = 0 := by
        rw [buffer_payload_length, ← size, toNat_of_not_pos empty]
      rw [List.length_eq_zero_iff.mp length, List.append_nil]

def written (pools : Pools) (text : TextCall) : List UInt8 :=
  (iov (send true pools text.call).1 text.call.payload).drop PacketHeader.size

theorem written_eq (pools : Pools) (text : TextCall) : written pools text = text.buffer.payload := by
  have size : (send true pools text.call).1.payloadSize = text.buffer.payloadSize := rfl
  rw [written, iov_eq_append size, List.drop_left' (header_toBytes_length _)]
  rfl

def ChecksumsRight (calls : List TextCall) : Prop :=
  ∀ earlier text later, calls = earlier ++ text :: later →
    (send true (poolsAfter earlier) text.call).1.checkSumCalculated =
      calculateCrc32 (written (poolsAfter earlier) text)

/-- No address comes back, while the window holds it, with a payload of another checksum. -/
def Unchanged (calls : List TextCall) : Prop :=
  ∀ earlier text later, calls = earlier ++ text :: later →
    ∀ before ∈ windowAfter earlier text.cachedType, before.address = text.buffer.address →
      calculateCrc32 before.payload = calculateCrc32 text.buffer.payload

theorem send_text_checkSum (pools : Pools) (text : TextCall) : (send true pools text.call).1.checkSumCalculated =
    ((pools text.cachedType).checkSum text.buffer).1 := rfl

theorem checksums_right_iff_unchanged (calls : List TextCall) : ChecksumsRight calls ↔ Unchanged calls := by
  constructor
  · intro right earlier text later split before member same
    have crc := right earlier text later split
    rw [send_text_checkSum, written_eq, checkSum_hit (tracks_poolsAfter earlier _) member same] at crc
    exact crc
  · intro unchanged earlier text later split
    rw [send_text_checkSum, written_eq]
    have tracks := tracks_poolsAfter earlier text.cachedType
    by_cases present : text.buffer.address ∈ (windowAfter earlier text.cachedType).map Buffer.address
    · obtain ⟨before, member, same⟩ := List.mem_map.mp present
      rw [checkSum_hit tracks member same]
      exact unchanged earlier text later split before member same
    · rw [checkSum_miss tracks present]
      rfl

def rewritten (letter : UInt8) : TextCall where
  cachedType := .string
  buffer := ⟨4096, [letter], fun null => absurd null (by decide)⟩
  type := .text
  seq := 1
  now := 0

theorem checksums_wrong_after_rewrite : ¬ ChecksumsRight [rewritten 97, rewritten 98] := by
  intro right
  have crc := right [rewritten 97] (rewritten 98) [] rfl
  revert crc
  decide

end KnowledgeAcquisition.Proof.Ipc
