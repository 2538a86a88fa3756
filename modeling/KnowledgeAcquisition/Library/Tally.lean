import Mathlib.Algebra.BigOperators.Group.Finset.Basic
import Mathlib.Algebra.Order.BigOperators.Group.Finset
import Mathlib.Data.Fintype.Card

/-!
# Tallies

How often something is the case over a finite family of parties, and how a tally follows the change of one
of them.
-/

namespace KnowledgeAcquisition.Library

variable {ι α : Type*} [Fintype ι]

def tally (weight : α → Nat) (family : ι → α) : Nat := ∑ i, weight (family i)

theorem tally_eq_zero {weight : α → Nat} {family : ι → α} (none : ∀ i, weight (family i) = 0) :
    tally weight family = 0 :=
  Finset.sum_eq_zero fun i _ => none i

theorem le_tally (weight : α → Nat) (family : ι → α) (i : ι) : weight (family i) ≤ tally weight family :=
  Finset.single_le_sum (f := fun j => weight (family j)) (fun _ _ => Nat.zero_le _) (Finset.mem_univ i)

theorem tally_one (family : ι → α) : tally (fun _ => 1) family = Fintype.card ι :=
  (Finset.card_eq_sum_ones Finset.univ).symm

variable [DecidableEq ι]

theorem tally_update (weight : α → Nat) (family : ι → α) (i : ι) (next : α) :
    tally weight (Function.update family i next) + weight (family i) = tally weight family + weight next := by
  have others : ∑ j ∈ Finset.univ.erase i, weight (Function.update family i next j) =
      ∑ j ∈ Finset.univ.erase i, weight (family j) := by
    apply Finset.sum_congr rfl
    intro j member
    rw [Function.update_of_ne (Finset.ne_of_mem_erase member)]
  have before := Finset.add_sum_erase Finset.univ (fun j => weight (family j)) (Finset.mem_univ i)
  have after := Finset.add_sum_erase Finset.univ (fun j => weight (Function.update family i next j))
    (Finset.mem_univ i)
  simp only [Function.update_self, others] at after
  unfold tally
  omega

theorem tally_add_le {weight larger : α → Nat} {family : ι → α}
    (bound : ∀ i, weight (family i) ≤ larger (family i)) (i : ι) :
    tally weight family + larger (family i) ≤ tally larger family + weight (family i) := by
  have others : ∑ j ∈ Finset.univ.erase i, weight (family j) ≤ ∑ j ∈ Finset.univ.erase i, larger (family j) :=
    Finset.sum_le_sum fun j _ => bound j
  have smaller := Finset.add_sum_erase Finset.univ (fun j => weight (family j)) (Finset.mem_univ i)
  have greater := Finset.add_sum_erase Finset.univ (fun j => larger (family j)) (Finset.mem_univ i)
  unfold tally
  omega

end KnowledgeAcquisition.Library
