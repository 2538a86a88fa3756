import Mathlib.Data.Nat.Digits.Defs

/-!
# Bytes in memory

Numbers of a fixed width, least significant byte first, and the copy of some bytes over the front of a
block of memory.
-/

namespace KnowledgeAcquisition.Library

def littleEndian : Nat → Nat → List UInt8
  | 0, _ => []
  | width + 1, number => UInt8.ofNat number :: littleEndian width (number / 256)

def ofLittleEndian (bytes : List UInt8) : Nat := Nat.ofDigits 256 (bytes.map UInt8.toNat)

@[simp] theorem littleEndian_length (width number : Nat) : (littleEndian width number).length = width := by
  induction width generalizing number with
  | zero => rfl
  | succ width ih => simp [littleEndian, ih]

theorem ofLittleEndian_littleEndian (width number : Nat) :
    ofLittleEndian (littleEndian width number) = number % 256 ^ width := by
  induction width generalizing number with
  | zero => simp [littleEndian, ofLittleEndian, Nat.mod_one]
  | succ width ih =>
      have rest := ih (number / 256)
      simp only [ofLittleEndian, littleEndian, List.map_cons, Nat.ofDigits_cons] at rest ⊢
      rw [rest, pow_succ', Nat.mod_mul]
      rfl

def overlay {α : Type*} (bytes block : List α) : List α := bytes ++ block.drop bytes.length

theorem overlay_of_length_eq {α : Type*} {bytes block : List α} (full : bytes.length = block.length) :
    overlay bytes block = bytes := by
  rw [overlay, full, List.drop_length, List.append_nil]

def resizeTo {α : Type*} (fill : α) (block : List α) (size : Nat) : List α :=
  block.take size ++ List.replicate (size - block.length) fill

@[simp] theorem resizeTo_length {α : Type*} (fill : α) (block : List α) (size : Nat) :
    (resizeTo fill block size).length = size := by
  simp only [resizeTo, List.length_append, List.length_take, List.length_replicate]
  omega

end KnowledgeAcquisition.Library
