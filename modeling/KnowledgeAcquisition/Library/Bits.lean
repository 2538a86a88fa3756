import Mathlib.Data.List.Induction
import Mathlib.Data.Nat.Bits
import Mathlib.Data.Nat.Bitwise

/-!
# Bits in order

A list of bits as a number, most significant bit first, and the bits of a list of bytes in the same order.
-/

namespace KnowledgeAcquisition.Library

def ofBits (bits : List Bool) : Nat := bits.foldl (fun number bit => Nat.bit bit number) 0

theorem ofBits_append (bits : List Bool) (bit : Bool) : ofBits (bits ++ [bit]) = Nat.bit bit (ofBits bits) := by
  rw [ofBits, List.foldl_append]
  rfl

theorem ofBits_lt (bits : List Bool) : ofBits bits < 2 ^ bits.length := by
  induction bits using List.reverseRecOn with
  | nil => exact Nat.one_pos
  | append_singleton bits bit ih =>
      rw [ofBits_append, List.length_append, List.length_singleton, Nat.pow_succ, Nat.bit_val]
      cases bit <;> simp only [Bool.toNat_false, Bool.toNat_true] <;> omega

theorem testBit_ofBits {bits : List Bool} {i : Nat} (inside : i < bits.length) :
    (ofBits bits).testBit (bits.length - 1 - i) = bits[i] := by
  induction bits using List.reverseRecOn with
  | nil => cases inside
  | append_singleton bits bit ih =>
      rw [ofBits_append]
      rw [List.length_append, List.length_singleton] at inside
      by_cases last : i = bits.length
      · subst last
        simp
      · have earlier : i < bits.length := by omega
        have place : (bits ++ [bit]).length - 1 - i = (bits.length - 1 - i) + 1 := by
          rw [List.length_append, List.length_singleton]
          omega
        rw [place, Nat.testBit_bit_succ, ih earlier, List.getElem_append_left earlier]

def bitAt {size : Nat} (bytes : Vector UInt8 size) (i : Nat) : Bool :=
  (bytes[i / 8]?.getD 0).toNat.testBit (7 - i % 8)

theorem bitAt_replicate (size i : Nat) : bitAt (Vector.replicate size 0) i = false := by
  rw [bitAt, Vector.getElem?_replicate]
  split_ifs <;> simp

theorem testBit_mask {place i : Nat} (small : place < 8) :
    (UInt8.ofNat (1 <<< place)).toNat.testBit i = decide (place = i) := by
  have fits : 1 <<< place < 256 := by
    rw [Nat.one_shiftLeft]
    exact Nat.pow_lt_pow_right (by decide) small
  rw [UInt8.toNat_ofNat_of_lt' fits, Nat.one_shiftLeft, Nat.testBit_two_pow]

theorem bitAt_set {size : Nat} (bytes : Vector UInt8 size) {place : Nat} (inside : place / 8 < size) (i : Nat) :
    bitAt (bytes.set (place / 8) (bytes[place / 8] ||| UInt8.ofNat (1 <<< (7 - place % 8))) inside) i =
      (bitAt bytes i || decide (i = place)) := by
  unfold bitAt
  by_cases same : i / 8 = place / 8
  · have equal : (7 - place % 8 = 7 - i % 8) = (i = place) := by
      apply propext
      omega
    rw [same, Vector.getElem?_set_self inside, Vector.getElem?_eq_getElem inside, Option.getD_some, Option.getD_some,
      UInt8.toNat_or, Nat.testBit_or, testBit_mask (by omega)]
    simp only [equal]
  · have apart : i ≠ place := fun equal => same (by rw [equal])
    rw [Vector.getElem?_set_ne inside (Ne.symm same)]
    simp [apart]

end KnowledgeAcquisition.Library
