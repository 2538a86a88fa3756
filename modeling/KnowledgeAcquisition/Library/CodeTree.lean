import Mathlib.Algebra.Order.BigOperators.Group.List
import Mathlib.Data.List.Perm.Basic
import Mathlib.Data.Nat.Fib.Basic

/-!
# Code trees

Binary trees with symbols at their leaves, the paths to the symbols, and Huffman's algorithm on forests: the two
lightest trees are merged. A tree that it grows has a weight that is exponential in its height.
-/

namespace KnowledgeAcquisition.Library

inductive CodeTree (α : Type*) where
  | leaf (symbol : α)
  | node (left right : CodeTree α)

namespace CodeTree

variable {α : Type*}

def leaves : CodeTree α → List α
  | leaf symbol => [symbol]
  | node left right => left.leaves ++ right.leaves

def height : CodeTree α → Nat
  | leaf _ => 0
  | node left right => max left.height right.height + 1

def inner : CodeTree α → Nat
  | leaf _ => 0
  | node left right => left.inner + right.inner + 1

theorem leaves_length (tree : CodeTree α) : tree.leaves.length = tree.inner + 1 := by
  induction tree with
  | leaf symbol => rfl
  | node left right leftIh rightIh =>
      simp only [leaves, inner, List.length_append, leftIh, rightIh]
      omega

theorem height_le_inner (tree : CodeTree α) : tree.height ≤ tree.inner := by
  induction tree with
  | leaf symbol => exact Nat.le_refl 0
  | node left right leftIh rightIh =>
      simp only [height, inner]
      omega

/-- The first path to a symbol from the left, `true` for a step to the right. -/
def path [DecidableEq α] (symbol : α) : CodeTree α → Option (List Bool)
  | leaf other => if other = symbol then some [] else none
  | node left right =>
      match left.path symbol with
      | some bits => some (false :: bits)
      | none => (right.path symbol).map (true :: ·)

theorem path_leaf_cases [DecidableEq α] {symbol other : α} {bits : List Bool}
    (found : (leaf other).path symbol = some bits) : other = symbol ∧ bits = [] := by
  rw [path] at found
  split_ifs at found with same
  exact ⟨same, (Option.some.inj found).symm⟩

theorem path_node_cases [DecidableEq α] {symbol : α} {left right : CodeTree α} {bits : List Bool}
    (found : (node left right).path symbol = some bits) :
    (∃ rest, left.path symbol = some rest ∧ bits = false :: rest) ∨
    ∃ rest, left.path symbol = none ∧ right.path symbol = some rest ∧ bits = true :: rest := by
  cases inLeft : left.path symbol with
  | some rest =>
      simp only [path, inLeft, Option.some.injEq] at found
      exact Or.inl ⟨rest, rfl, found.symm⟩
  | none =>
      simp only [path, inLeft, Option.map_eq_some_iff] at found
      obtain ⟨rest, inRight, extended⟩ := found
      exact Or.inr ⟨rest, rfl, inRight, extended.symm⟩

theorem path_length_le [DecidableEq α] {symbol : α} {tree : CodeTree α} {bits : List Bool}
    (found : tree.path symbol = some bits) : bits.length ≤ tree.height := by
  induction tree generalizing bits with
  | leaf other =>
      obtain ⟨-, rfl⟩ := path_leaf_cases found
      exact Nat.le_refl 0
  | node left right leftIh rightIh =>
      rcases path_node_cases found with ⟨rest, inLeft, rfl⟩ | ⟨rest, -, inRight, rfl⟩
      · exact Nat.succ_le_succ ((leftIh inLeft).trans (Nat.le_max_left _ _))
      · exact Nat.succ_le_succ ((rightIh inRight).trans (Nat.le_max_right _ _))

theorem exists_path [DecidableEq α] {symbol : α} {tree : CodeTree α} (member : symbol ∈ tree.leaves) :
    ∃ bits, tree.path symbol = some bits := by
  induction tree with
  | leaf other =>
      obtain rfl := List.mem_singleton.mp member
      exact ⟨[], if_pos rfl⟩
  | node left right leftIh rightIh =>
      cases inLeft : left.path symbol with
      | some bits => exact ⟨false :: bits, by simp only [path, inLeft]⟩
      | none =>
          have inRight : symbol ∈ right.leaves := by
            cases List.mem_append.mp member with
            | inl here =>
                obtain ⟨bits, found⟩ := leftIh here
                rw [inLeft] at found
                cases found
            | inr there => exact there
          obtain ⟨bits, found⟩ := rightIh inRight
          exact ⟨true :: bits, by simp only [path, inLeft, found, Option.map_some]⟩

/-! ## Weights -/

def weight (freq : α → Nat) : CodeTree α → Nat
  | leaf symbol => freq symbol
  | node left right => left.weight freq + right.weight freq

theorem weight_eq_sum (freq : α → Nat) (tree : CodeTree α) : tree.weight freq = (tree.leaves.map freq).sum := by
  induction tree with
  | leaf symbol => simp [weight, leaves]
  | node left right leftIh rightIh => simp only [weight, leaves, List.map_append, List.sum_append, leftIh, rightIh]

def children : CodeTree α → List (CodeTree α)
  | leaf _ => []
  | node left right => [left, right]

/-- Neither tree has a child that outweighs the other tree. -/
def Level (freq : α → Nat) (tree other : CodeTree α) : Prop :=
  (∀ child ∈ tree.children, child.weight freq ≤ other.weight freq) ∧
    ∀ child ∈ other.children, child.weight freq ≤ tree.weight freq

theorem Level.symm {freq : α → Nat} {tree other : CodeTree α} (level : Level freq tree other) : Level freq other tree :=
  ⟨level.2, level.1⟩

def Grown (freq : α → Nat) : CodeTree α → Prop
  | leaf _ => True
  | node left right => left.Grown freq ∧ right.Grown freq ∧ Level freq left right

theorem fib_le_sibling {freq : α → Nat} {tree other : CodeTree α}
    (bounds : ∀ child ∈ tree.children, Nat.fib (child.height + 2) ≤ child.weight freq)
    (level : Level freq tree other) (positive : 0 < other.weight freq) :
    Nat.fib (tree.height + 1) ≤ other.weight freq := by
  cases tree with
  | leaf symbol => exact positive
  | node left right =>
      cases Nat.le_total left.height right.height with
      | inl lower =>
          rw [height, Nat.max_eq_right lower]
          exact (bounds right (by simp [children])).trans (level.1 right (by simp [children]))
      | inr lower =>
          rw [height, Nat.max_eq_left lower]
          exact (bounds left (by simp [children])).trans (level.1 left (by simp [children]))

theorem weight_pos {freq : α → Nat} {tree : CodeTree α} (positive : ∀ symbol ∈ tree.leaves, 0 < freq symbol) :
    0 < tree.weight freq := by
  induction tree with
  | leaf symbol => exact positive symbol (List.mem_singleton_self symbol)
  | node left right leftIh _ =>
      exact Nat.add_pos_left (leftIh fun symbol member => positive symbol (List.mem_append_left _ member)) _

theorem fib_le_weight {freq : α → Nat} {tree : CodeTree α} (grown : tree.Grown freq)
    (positive : ∀ symbol ∈ tree.leaves, 0 < freq symbol) :
    Nat.fib (tree.height + 2) ≤ tree.weight freq ∧
      ∀ child ∈ tree.children, Nat.fib (child.height + 2) ≤ child.weight freq := by
  induction tree with
  | leaf symbol =>
      refine ⟨positive symbol (List.mem_singleton_self symbol), fun child member => ?_⟩
      cases member
  | node left right leftIh rightIh =>
      obtain ⟨leftGrown, rightGrown, level⟩ := grown
      have leftPositive : ∀ symbol ∈ left.leaves, 0 < freq symbol :=
        fun symbol member => positive symbol (List.mem_append_left _ member)
      have rightPositive : ∀ symbol ∈ right.leaves, 0 < freq symbol :=
        fun symbol member => positive symbol (List.mem_append_right _ member)
      obtain ⟨leftBound, leftBounds⟩ := leftIh leftGrown leftPositive
      obtain ⟨rightBound, rightBounds⟩ := rightIh rightGrown rightPositive
      constructor
      · cases Nat.le_total left.height right.height with
        | inl lower =>
            rw [height, Nat.max_eq_right lower, Nat.fib_add_two, weight]
            exact Nat.add_le_add (fib_le_sibling rightBounds level.symm (weight_pos leftPositive)) rightBound
        | inr lower =>
            rw [height, Nat.max_eq_left lower, Nat.fib_add_two, weight, Nat.add_comm (left.weight freq)]
            exact Nat.add_le_add (fib_le_sibling leftBounds level (weight_pos rightPositive)) leftBound
      · intro child member
        simp only [children, List.mem_cons, List.not_mem_nil, or_false] at member
        rcases member with rfl | rfl
        · exact leftBound
        · exact rightBound

structure Merges (freq : α → Nat) (forest next : List (CodeTree α)) (left right : CodeTree α)
    (rest : List (CodeTree α)) : Prop where
  before : forest.Perm (left :: right :: rest)
  lightest : ∀ tree ∈ rest, left.weight freq ≤ tree.weight freq ∧ right.weight freq ≤ tree.weight freq
  after : next.Perm (node left right :: rest)

structure GrownForest (freq : α → Nat) (forest : List (CodeTree α)) : Prop where
  grown : ∀ tree ∈ forest, tree.Grown freq
  level : forest.Pairwise (Level freq)

variable {freq : α → Nat} {forest next rest : List (CodeTree α)} {left right : CodeTree α}

theorem GrownForest.perm (grown : GrownForest freq forest) (same : forest.Perm next) : GrownForest freq next :=
  ⟨fun tree member => grown.grown tree (same.mem_iff.mpr member),
    (same.pairwise_iff fun level => level.symm).mp grown.level⟩

theorem level_node {tree : CodeTree α} (leftLevel : Level freq left tree)
    (lightest : left.weight freq ≤ tree.weight freq ∧ right.weight freq ≤ tree.weight freq) :
    Level freq (node left right) tree := by
  refine ⟨?_, ?_⟩
  · intro child member
    simp only [children, List.mem_cons, List.not_mem_nil, or_false] at member
    rcases member with rfl | rfl
    · exact lightest.1
    · exact lightest.2
  · intro child member
    exact (leftLevel.2 child member).trans (Nat.le_add_right _ _)

theorem Merges.grown (merges : Merges freq forest next left right rest) (grown : GrownForest freq forest) :
    GrownForest freq next := by
  have split := grown.perm merges.before
  obtain ⟨leftLevel, restLevel⟩ := List.pairwise_cons.mp split.level
  obtain ⟨_, restLevel⟩ := List.pairwise_cons.mp restLevel
  refine GrownForest.perm ⟨?_, List.pairwise_cons.mpr ⟨?_, restLevel⟩⟩ merges.after.symm
  · intro tree member
    cases member with
    | head =>
        exact ⟨split.grown left (by simp), split.grown right (by simp), leftLevel right (by simp)⟩
    | tail _ old => exact split.grown tree (List.mem_cons_of_mem _ (List.mem_cons_of_mem _ old))
  · intro tree member
    exact level_node (leftLevel tree (by simp [member])) (merges.lightest tree member)

theorem Merges.leaves (merges : Merges freq forest next left right rest) :
    (next.flatMap CodeTree.leaves).Perm (forest.flatMap CodeTree.leaves) := by
  have after := merges.after.flatMap_right CodeTree.leaves
  have before := merges.before.flatMap_right CodeTree.leaves
  refine after.trans (List.Perm.trans ?_ before.symm)
  simp only [List.flatMap_cons, CodeTree.leaves, List.append_assoc]
  exact List.Perm.refl _

end CodeTree

end KnowledgeAcquisition.Library
