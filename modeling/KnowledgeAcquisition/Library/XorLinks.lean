import Mathlib.Data.List.Nodup
import Mathlib.Logic.Function.Basic

/-!
# Lists linked by exclusive or

Every node of a doubly linked list stores the exclusive or of its two neighbours. A traversal carries the node it comes
from and recovers the other neighbour; the list read backwards is linked in the same way.
-/

namespace KnowledgeAcquisition.Library.XorLinks

variable {w : Nat} {xored xored' : BitVec w → BitVec w} {before after : BitVec w} {xs ys is : List (BitVec w)}

/-- The stretch `is` with neighbours `before` and `after`. -/
def Linked (xored : BitVec w → BitVec w) : BitVec w → List (BitVec w) → BitVec w → Prop
  | _, [], _ => True
  | before, i :: is, after => xored i = before ^^^ is.headD after ∧ Linked xored i is after

theorem Linked.congr (linked : Linked xored before is after) (same : ∀ i ∈ is, xored' i = xored i) :
    Linked xored' before is after := by
  induction is generalizing before with
  | nil => trivial
  | cons i is ih =>
      rw [List.forall_mem_cons] at same
      exact ⟨same.1.trans linked.1, ih linked.2 same.2⟩

theorem linked_append : Linked xored before (xs ++ ys) after ↔
    Linked xored before xs (ys.headD after) ∧ Linked xored (xs.getLastD before) ys after := by
  induction xs generalizing before with
  | nil => simp [Linked]
  | cons x xs ih =>
      have first : (xs ++ ys).headD after = xs.headD (ys.headD after) := by
        cases xs with
        | nil => rfl
        | cons y xs => rfl
      rw [List.cons_append, Linked, Linked, ih, first, and_assoc, List.getLastD_cons]

theorem Linked.reverse (linked : Linked xored before is after) : Linked xored after is.reverse before := by
  induction is generalizing before with
  | nil => trivial
  | cons i is ih =>
      obtain ⟨here, rest⟩ := linked
      have last : is.reverse.getLastD after = is.headD after := by
        rw [List.getLastD_eq_getLast?, List.getLast?_reverse, ← List.headD_eq_head?_getD]
      rw [List.reverse_cons]
      refine linked_append.mpr ⟨ih rest, ?_, trivial⟩
      rw [here, last, BitVec.xor_comm]
      rfl

theorem Linked.next {i : BitVec w} (linked : Linked xored before (i :: is) after) :
    xored i ^^^ before = is.headD after := by
  rw [linked.1, BitVec.xor_comm before, BitVec.xor_assoc, BitVec.xor_self, BitVec.xor_zero]

theorem Linked.set_after {last : BitVec w} (linked : Linked xored before (xs ++ [last]) after) (absent : last ∉ xs)
    (after' : BitVec w) :
    Linked (Function.update xored last (xored last ^^^ after ^^^ after')) before (xs ++ [last]) after' := by
  obtain ⟨front, back, -⟩ := linked_append.mp linked
  refine linked_append.mpr ⟨?_, ?_, trivial⟩
  · apply front.congr
    intro i member
    apply Function.update_of_ne
    rintro rfl
    exact absent member
  · rw [Function.update_self, back]
    simp only [List.headD_nil, BitVec.xor_assoc, BitVec.xor_self, BitVec.xor_zero]

theorem Linked.snoc {last x : BitVec w} (linked : Linked xored before (xs ++ [last]) 0) (absent : last ∉ xs)
    (other : x ≠ last) (back : xored x = last) :
    Linked (Function.update xored last (xored last ^^^ x)) before (xs ++ [last] ++ [x]) 0 := by
  have cleared (y : BitVec w) : y ^^^ 0 = y := BitVec.xor_zero
  have front := linked.set_after absent x
  rw [cleared] at front
  refine linked_append.mpr ⟨front, ?_, trivial⟩
  rw [Function.update_of_ne other, back, List.getLastD_concat, List.headD_nil, cleared]

end KnowledgeAcquisition.Library.XorLinks
