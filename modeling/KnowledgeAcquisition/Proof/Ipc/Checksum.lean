import KnowledgeAcquisition.Ipc.Sender
import KnowledgeAcquisition.Library.Register

/-!
# Error bursts

`ConstexprUtil::calculate_crc32` is a feedback shift register of 32 bits fed with bytes, four of which fill it.
-/

namespace KnowledgeAcquisition.Proof.Ipc
open KnowledgeAcquisition.Ipc Library

def polynomial : BitVec 32 := 0xEDB88320#32

/-- The loop masks the polynomial with the lowest bit instead of branching on it. -/
theorem crcBit_shift (crc : UInt32) : (crcBit crc).toBitVec = Register.shift polynomial crc.toBitVec := by
  have mask : -(crc.toBitVec &&& 1#32) = if crc.toBitVec.getLsbD 0 then 0xFFFFFFFF#32 else 0#32 := by
    rw [BitVec.and_one_eq_setWidth_ofBool_getLsbD]
    cases crc.toBitVec.getLsbD 0 with
    | true => rfl
    | false => rfl
  have bits : (crcBit crc).toBitVec = crc.toBitVec >>> 1 ^^^ (polynomial &&& -(crc.toBitVec &&& 1#32)) := rfl
  rw [bits, mask, Register.shift]
  cases crc.toBitVec.getLsbD 0 with
  | true => rfl
  | false => exact BitVec.xor_zero

theorem crcByte_absorb (crc : UInt32) (byte : UInt8) :
    (crcByte crc byte).toBitVec = Register.absorb polynomial crc.toBitVec byte.toBitVec := by
  have turns : ∀ n (crc : UInt32), (crcBit^[n] crc).toBitVec = (Register.shift polynomial)^[n] crc.toBitVec := by
    intro n
    induction n with
    | zero => exact fun _ => rfl
    | succ n ih =>
        intro crc
        rw [Function.iterate_succ_apply, ih, crcBit_shift, Function.iterate_succ_apply]
  exact turns 8 (crc ^^^ byte.toUInt32)

theorem foldl_crcByte (data : List UInt8) (crc : UInt32) :
    (data.foldl crcByte crc).toBitVec =
      (data.map UInt8.toBitVec).foldl (Register.absorb polynomial) crc.toBitVec := by
  induction data generalizing crc with
  | nil => rfl
  | cons byte data ih => rw [List.foldl_cons, ih, crcByte_absorb, List.map_cons, List.foldl_cons]

theorem calculateCrc32_eq_iff_registers (left right : List UInt8) : calculateCrc32 left = calculateCrc32 right ↔
    (left.map UInt8.toBitVec).foldl (Register.absorb polynomial) 0xFFFFFFFF#32 =
      (right.map UInt8.toBitVec).foldl (Register.absorb polynomial) 0xFFFFFFFF#32 := by
  rw [calculateCrc32, calculateCrc32, UInt32.not_inj, ← UInt32.toBitVec_inj, foldl_crcByte, foldl_crcByte]
  rfl

theorem split_window {left right : List UInt8} {start size : Nat}
    (outside : ∀ j, j < start ∨ start + size ≤ j → left[j]? = right[j]?) :
    ∃ before after, left = before ++ (left.drop start).take size ++ after ∧
      right = before ++ (right.drop start).take size ++ after := by
  have cut : ∀ bytes : List UInt8,
      bytes = bytes.take start ++ (bytes.drop start).take size ++ bytes.drop (start + size) := by
    intro bytes
    rw [List.append_assoc, ← List.drop_drop, List.take_append_drop, List.take_append_drop]
  have before : left.take start = right.take start := by
    apply List.ext_getElem?
    intro j
    rw [List.getElem?_take, List.getElem?_take]
    split
    · rename_i inside
      exact outside j (.inl inside)
    · rfl
  have after : left.drop (start + size) = right.drop (start + size) := by
    apply List.ext_getElem?
    intro j
    rw [List.getElem?_drop, List.getElem?_drop]
    exact outside _ (.inr (Nat.le_add_right _ j))
  refine ⟨left.take start, left.drop (start + size), cut left, ?_⟩
  rw [before, after]
  exact cut right

theorem calculateCrc32_detects_burst {left right : List UInt8} {start : Nat} (length : left.length = right.length)
    (outside : ∀ j, j < start ∨ start + 4 ≤ j → left[j]? = right[j]?) (different : left ≠ right) :
    calculateCrc32 left ≠ calculateCrc32 right := by
  intro same
  obtain ⟨before, after, left_eq, right_eq⟩ := split_window outside
  have registers := (calculateCrc32_eq_iff_registers left right).mp same
  rw [left_eq, right_eq] at registers
  simp only [List.map_append] at registers
  have sizes : (((left.drop start).take 4).map UInt8.toBitVec).length =
      (((right.drop start).take 4).map UInt8.toBitVec).length := by
    simp [length]
  have fits : 8 * (((left.drop start).take 4).map UInt8.toBitVec).length ≤ 32 := by
    simp only [List.length_map, List.length_take]
    omega
  have window := Register.burst_injective (by decide) _ _ _ sizes fits registers
  refine different ?_
  rw [left_eq, right_eq, List.map_injective_iff.mpr (fun _ _ => UInt8.toBitVec_inj.mp) window]

theorem calculateCrc32_detects_swap : calculateCrc32 [9, 1, 2, 3, 4, 9] ≠ calculateCrc32 [9, 4, 3, 2, 1, 9] := by
  refine @calculateCrc32_detects_burst [9, 1, 2, 3, 4, 9] [9, 4, 3, 2, 1, 9] 1 rfl ?_ (by decide)
  intro j away
  cases j with
  | zero => rfl
  | succ j =>
      obtain ⟨k, rfl⟩ := Nat.exists_eq_add_of_le' (show 4 ≤ j by omega)
      rfl

end KnowledgeAcquisition.Proof.Ipc
