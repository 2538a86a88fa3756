import Mathlib.Algebra.GroupWithZero.Nat
import Mathlib.Data.Fin.Basic
import Mathlib.Data.List.Rotate

/-!
# Ring buffers

A block of slots that is overwritten in turn. Read from the slot that is overwritten next, it is a queue:
the oldest entry leaves at the front and the new one joins at the end.
-/

namespace KnowledgeAcquisition.Library

variable {α : Type*}

theorem rotate_set (slots : List α) {i : Nat} (inside : i < slots.length) (entry : α) :
    (slots.set i entry).rotate ((i + 1) % slots.length) = (slots.rotate i).tail ++ [entry] := by
  have length : (slots.set i entry).length = slots.length := List.length_set
  have front : ((slots.set i entry).take (i + 1)) = slots.take i ++ [entry] := by
    rw [List.take_add_one, List.take_set_of_le (Nat.le_refl i), List.getElem?_set_self inside]
    rfl
  have back : (slots.set i entry).drop (i + 1) = slots.drop (i + 1) :=
    List.drop_set_of_lt (Nat.lt_succ_self i)
  have before : slots.rotate i = slots[i] :: (slots.drop (i + 1) ++ slots.take i) := by
    rw [List.rotate_eq_drop_append_take (Nat.le_of_lt inside), List.drop_eq_getElem_cons inside,
      List.cons_append]
  calc (slots.set i entry).rotate ((i + 1) % slots.length)
      = (slots.set i entry).rotate (i + 1) := by rw [← length, List.rotate_mod]
    _ = slots.drop (i + 1) ++ (slots.take i ++ [entry]) := by
      rw [List.rotate_eq_drop_append_take (by omega), front, back]
    _ = (slots.rotate i).tail ++ [entry] := by rw [before, List.tail_cons, List.append_assoc]

variable {n : Nat} [NeZero n] (slots : Fin n → α)

/-- The contents of `size` slots from `first` on, around the ring. -/
def cyclic (first size : Nat) : List α := (List.range size).map fun i => slots (Fin.ofNat n (first + i))

def overwrite (first count : Nat) (entry : Nat → α) : Fin n → α := fun slot =>
  if (slot + (n - first % n)) % n < count then entry ((slot + (n - first % n)) % n) else slots slot

variable {slots} {first size count : Nat} {entry : Nat → α}

theorem ofNat_congr {a b : Nat} (same : a % n = b % n) : Fin.ofNat n a = Fin.ofNat n b := Fin.ext same

theorem ofNat_add_period (a : Nat) : Fin.ofNat n (a + n) = Fin.ofNat n a := ofNat_congr (Nat.add_mod_right a n)

@[simp] theorem cyclic_length : (cyclic slots first size).length = size := by
  rw [cyclic, List.length_map, List.length_range]

theorem cyclic_getElem {i : Nat} (inside : i < (cyclic slots first size).length) :
    (cyclic slots first size)[i] = slots (Fin.ofNat n (first + i)) := by
  simp only [cyclic, List.getElem_map, List.getElem_range]

theorem cyclic_append (a b : Nat) :
    cyclic slots first (a + b) = cyclic slots first a ++ cyclic slots (first + a) b := by
  simp only [cyclic, List.range_add, List.map_append, List.map_map, Function.comp_def, Nat.add_assoc]

theorem cyclic_drop {k : Nat} (within : k ≤ size) :
    (cyclic slots first size).drop k = cyclic slots (first + k) (size - k) := by
  obtain ⟨rest, rfl⟩ := Nat.exists_eq_add_of_le within
  rw [cyclic_append, List.drop_left' cyclic_length, Nat.add_sub_cancel_left]

theorem cyclic_mod (first size : Nat) : cyclic slots (first % n) size = cyclic slots first size := by
  apply List.map_congr_left
  intro i _
  rw [ofNat_congr (Nat.mod_add_mod first n i)]

theorem overwrite_ofNat {i : Nat} (inside : i < n) :
    overwrite slots first count entry (Fin.ofNat n (first + i)) =
      if i < count then entry i else slots (Fin.ofNat n (first + i)) := by
  have place : ((first + i) % n + (n - first % n)) % n = i := by
    have below := Nat.mod_lt first (Nat.pos_of_neZero n)
    rw [Nat.add_mod first, Nat.mod_eq_of_lt inside]
    by_cases wraps : first % n + i < n
    · rw [Nat.mod_eq_of_lt wraps, show first % n + i + (n - first % n) = i + n by omega, Nat.add_mod_right,
        Nat.mod_eq_of_lt inside]
    · have around : (first % n + i) % n = first % n + i - n := by
        rw [Nat.mod_eq_sub_mod (Nat.le_of_not_lt wraps), Nat.mod_eq_of_lt (by omega)]
      rw [around, show first % n + i - n + (n - first % n) = i by omega, Nat.mod_eq_of_lt inside]
  simp only [overwrite, Fin.val_ofNat, place]

theorem overwrite_behind (within : size ≤ n) {i : Nat} (inside : i < size) :
    overwrite slots (first + size) count entry (Fin.ofNat n (first + i)) =
      if n - size + i < count then entry (n - size + i) else slots (Fin.ofNat n (first + i)) := by
  have around : Fin.ofNat n (first + i) = Fin.ofNat n (first + size + (n - size + i)) := by
    rw [show first + size + (n - size + i) = first + i + n by omega, ofNat_add_period]
  rw [around, overwrite_ofNat (by omega)]

theorem cyclic_overwrite (within : size ≤ n) (bounded : count ≤ n) :
    cyclic (overwrite slots (first + size) count entry) (first + (size + count - n)) (min (size + count) n) =
      (cyclic slots first size ++ (List.range count).map entry).drop (size + count - n) := by
  apply List.ext_getElem
  · simp only [cyclic_length, List.length_drop, List.length_append, List.length_map, List.length_range]
    omega
  · intro i inside _
    rw [cyclic_length] at inside
    rw [cyclic_getElem, List.getElem_drop, Nat.add_assoc]
    by_cases old : size + count - n + i < size
    · rw [List.getElem_append_left (by simpa using old), cyclic_getElem, overwrite_behind within old,
        if_neg (by omega)]
    · obtain ⟨k, split⟩ := Nat.exists_eq_add_of_le (Nat.le_of_not_lt old)
      rw [List.getElem_append_right (by simpa using Nat.le_of_not_lt old)]
      simp only [split, cyclic_length, Nat.add_sub_cancel_left, List.getElem_map, List.getElem_range]
      rw [← Nat.add_assoc, overwrite_ofNat (by omega), if_pos (by omega)]

theorem cyclic_overwrite_eq_iff (within : size ≤ n) (bounded : count ≤ n) :
    cyclic (overwrite slots (first + size) count entry) first size = cyclic slots first size ↔
      ∀ i < count, n ≤ size + i → (cyclic slots first size)[size + i - n]? = some (entry i) := by
  constructor
  · intro same i written reached
    have inside : size + i - n < (cyclic slots first size).length := by
      rw [cyclic_length]
      omega
    rw [cyclic_length] at inside
    have behind := @overwrite_behind _ n _ slots first size count entry within _ inside
    rw [show n - size + (size + i - n) = i by omega, if_pos written] at behind
    rw [← same, ← behind, List.getElem?_eq_getElem (by simpa using inside), cyclic_getElem]
  · intro kept
    apply List.ext_getElem
    · simp only [cyclic_length]
    · intro i inside inside'
      rw [cyclic_length] at inside
      rw [cyclic_getElem, cyclic_getElem, overwrite_behind within inside]
      split
      case isTrue written =>
          have same := kept (n - size + i) written (by omega)
          rw [show size + (n - size + i) - n = i by omega, List.getElem?_eq_getElem inside', cyclic_getElem] at same
          exact (Option.some.inj same).symm
      case isFalse => rfl

theorem exists_ofNat (first : Nat) (slot : Fin n) : ∃ i < n, slot = Fin.ofNat n (first + i) := by
  have below := Nat.mod_lt first (Nat.pos_of_neZero n)
  refine ⟨(slot + (n - first % n)) % n, Nat.mod_lt _ (Nat.pos_of_neZero n), ?_⟩
  apply Fin.ext
  rw [Fin.val_ofNat, Nat.add_mod_mod, ← Nat.mod_add_mod, show first % n + (slot + (n - first % n)) = slot + n by omega,
    Nat.add_mod_right, Nat.mod_eq_of_lt slot.isLt]

theorem overwrite_overwrite {a b : Nat} {later : Nat → α} (bounded : a + b ≤ n) :
    overwrite (overwrite slots first a entry) (first + a) b later =
      overwrite slots first (a + b) fun i => if i < a then entry i else later (i - a) := by
  funext slot
  obtain ⟨i, inside, rfl⟩ := exists_ofNat first slot
  rw [overwrite_ofNat inside]
  by_cases before : i < a
  · rw [overwrite_behind (by omega) before, if_neg (by omega), overwrite_ofNat inside, if_pos before,
      if_pos (by omega), if_pos before]
  · obtain ⟨k, rfl⟩ := Nat.exists_eq_add_of_le (Nat.le_of_not_lt before)
    rw [← Nat.add_assoc, overwrite_ofNat (by omega), Nat.add_assoc, overwrite_ofNat inside]
    simp only [before, if_false, Nat.add_sub_cancel_left, Nat.add_lt_add_iff_left]

omit [NeZero n] in
theorem overwrite_congr {other : Nat → α} (same : ∀ i < count, entry i = other i) :
    overwrite slots first count entry = overwrite slots first count other := by
  funext slot
  unfold overwrite
  split
  case isTrue inside => exact same _ inside
  case isFalse => rfl

omit [NeZero n] in
theorem overwrite_zero : overwrite slots first 0 entry = slots := rfl

omit [NeZero n] in
theorem overwrite_mod : overwrite slots (first % n) count entry = overwrite slots first count entry := by
  unfold overwrite
  rw [Nat.mod_mod]

theorem overwrite_linear (fits : first + count ≤ n) : overwrite slots first count entry = fun slot : Fin n =>
    if first ≤ slot ∧ slot < first + count then entry (slot - first) else slots slot := by
  funext slot
  obtain ⟨i, inside, rfl⟩ := exists_ofNat first slot
  rw [overwrite_ofNat inside, Fin.val_ofNat]
  by_cases wraps : first + i < n
  · rw [Nat.mod_eq_of_lt wraps, Nat.add_sub_cancel_left]
    simp only [Nat.le_add_right, true_and, Nat.add_lt_add_iff_left]
  · by_cases before : first < n
    · rw [Nat.mod_eq_sub_mod (Nat.le_of_not_lt wraps), Nat.mod_eq_of_lt (by omega), if_neg (by omega), if_neg (by omega)]
    · rw [if_neg (by omega), if_neg (by omega)]

end KnowledgeAcquisition.Library
