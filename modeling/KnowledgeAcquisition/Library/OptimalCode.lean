import KnowledgeAcquisition.Library.CodeTree
import Mathlib.InformationTheory.Coding.KraftMcMillan

/-!
# Optimal codes

Huffman's algorithm against every assignment of code lengths that satisfies Kraft's inequality. Such an assignment can
be rearranged so that the two lightest weights have the greatest lengths, and merging them keeps the inequality. What
the merged weight costs is thereby taken off every budget, so that no budget is below the cost of the last tree.
-/

namespace KnowledgeAcquisition.Library.CodeTree

noncomputable def kraft (lengths : List Nat) : ℝ := (lengths.map fun length => (1 / 2 : ℝ) ^ length).sum

@[simp] theorem kraft_cons (length : Nat) (lengths : List Nat) :
    kraft (length :: lengths) = (1 / 2) ^ length + kraft lengths := rfl

theorem kraft_perm {lengths others : List Nat} (same : lengths.Perm others) : kraft lengths = kraft others :=
  (same.map _).sum_eq

theorem kraft_shares {lengths : List Nat} {top : Nat} (below : ∀ length ∈ lengths, length ≤ top) :
    ∃ shares : Nat, kraft lengths = shares * (1 / 2) ^ top := by
  induction lengths with
  | nil => exact ⟨0, by simp [kraft]⟩
  | cons length lengths ih =>
      obtain ⟨shares, rest⟩ := ih fun other member => below other (List.mem_cons_of_mem _ member)
      obtain ⟨longer, rfl⟩ := Nat.exists_eq_add_of_le (below length List.mem_cons_self)
      refine ⟨2 ^ longer + shares, ?_⟩
      have split : (1 / 2 : ℝ) ^ length = 2 ^ longer * (1 / 2) ^ (length + longer) := by
        rw [pow_add, mul_left_comm, ← mul_pow]
        norm_num
      rw [kraft_cons, rest, split]
      push_cast
      ring

theorem kraft_merge {lengths : List Nat} {long short : Nat} (below : ∀ length ∈ lengths, length ≤ short)
    (fits : kraft (long :: short :: lengths) ≤ 1) : 1 ≤ short ∧ kraft ((short - 1) :: lengths) ≤ 1 := by
  obtain ⟨shares, rest⟩ := kraft_shares below
  have share : (0 : ℝ) < (1 / 2) ^ short := by positivity
  have longer : (0 : ℝ) < (1 / 2) ^ long := by positivity
  have scale : (2 : ℝ) ^ short * (1 / 2) ^ short = 1 := by
    rw [← mul_pow]
    norm_num
  rw [kraft_cons, kraft_cons, rest] at fits
  have taken : ((shares + 1 : Nat) : ℝ) * (1 / 2) ^ short < (2 ^ short : Nat) * (1 / 2) ^ short := by
    push_cast
    linarith
  -- as a number of shares the sum is short of the whole by at least one of them
  have left : shares + 1 < 2 ^ short := by
    exact_mod_cast lt_of_mul_lt_mul_right taken share.le
  have room : ((shares + 2 : Nat) : ℝ) * (1 / 2) ^ short ≤ (2 ^ short : Nat) * (1 / 2) ^ short :=
    mul_le_mul_of_nonneg_right (by exact_mod_cast left) share.le
  cases short with
  | zero => simp at left
  | succ short =>
      refine ⟨Nat.succ_pos short, ?_⟩
      have double : (1 / 2 : ℝ) ^ short = 2 * (1 / 2) ^ (short + 1) := by
        rw [pow_succ]
        ring
      rw [Nat.add_sub_cancel, kraft_cons, rest, double]
      push_cast at room
      linarith

def total (pairs : List (Nat × Nat)) : Nat := (pairs.map fun pair => pair.1 * pair.2).sum

@[simp] theorem total_cons (pair : Nat × Nat) (pairs : List (Nat × Nat)) :
    total (pair :: pairs) = pair.1 * pair.2 + total pairs := rfl

theorem exchange {first second : Nat} {pairs : List (Nat × Nat)}
    (lightest : ∀ pair ∈ pairs, first ≤ pair.1 ∧ second ≤ pair.1) (a b : Nat) :
    ∃ a' b' pairs', pairs'.map Prod.fst = pairs.map Prod.fst ∧
      (a' :: b' :: pairs'.map Prod.snd).Perm (a :: b :: pairs.map Prod.snd) ∧
      (∀ length ∈ pairs'.map Prod.snd, length ≤ a' ∧ length ≤ b') ∧
      total ((first, a') :: (second, b') :: pairs') ≤ total ((first, a) :: (second, b) :: pairs) := by
  induction pairs with
  | nil => exact ⟨a, b, [], rfl, List.Perm.refl _, nofun, Nat.le_refl _⟩
  | cons pair pairs ih =>
      obtain ⟨weight, length⟩ := pair
      obtain ⟨a', b', pairs', weights, lengths, greatest, cheaper⟩ :=
        ih fun other member => lightest other (List.mem_cons_of_mem _ member)
      obtain ⟨lightFirst, lightSecond⟩ := lightest _ List.mem_cons_self
      have behind : ∀ x y : Nat, ∀ rest : List Nat, (x :: y :: length :: rest).Perm (length :: x :: y :: rest) :=
        fun x y rest => @List.perm_middle _ length [x, y] rest
      have all : (length :: a' :: b' :: pairs'.map Prod.snd).Perm (a :: b :: length :: pairs.map Prod.snd) :=
        (lengths.cons length).trans (behind a b _).symm
      simp only [total_cons] at cheaper
      by_cases shorter : length ≤ a' ∧ length ≤ b'
      · refine ⟨a', b', (weight, length) :: pairs', by simp [weights], (behind a' b' _).trans all, ?_, ?_⟩
        · intro other member
          rcases List.mem_cons.mp member with rfl | old
          · exact shorter
          · exact greatest other old
        · simp only [total_cons]
          omega
      · -- the length goes to the weight that has the smaller one
        by_cases order : a' ≤ b'
        · have less : a' ≤ length := by omega
          refine ⟨length, b', (weight, a') :: pairs', by simp [weights], ?_, ?_, ?_⟩
          · exact ((List.Perm.swap a' b' _).cons length).trans all
          · intro other member
            rcases List.mem_cons.mp member with rfl | old
            · exact ⟨less, order⟩
            · exact ⟨(greatest other old).1.trans less, (greatest other old).2⟩
          · have swapped := mul_add_mul_le_mul_add_mul lightFirst less
            simp only [total_cons] at swapped ⊢
            omega
        · have less : b' ≤ length := by omega
          refine ⟨a', length, (weight, b') :: pairs', by simp [weights], ?_, ?_, ?_⟩
          · exact (List.Perm.swap length a' _).trans all
          · intro other member
            rcases List.mem_cons.mp member with rfl | old
            · exact ⟨Nat.le_of_not_le order, less⟩
            · exact ⟨(greatest other old).1, (greatest other old).2.trans less⟩
          · have swapped := mul_add_mul_le_mul_add_mul lightSecond less
            simp only [total_cons] at swapped ⊢
            omega

/-- Some lengths for the weights satisfy Kraft's inequality and stay within the budget. -/
def Affords (weights : List Nat) (budget : Nat) : Prop :=
  ∃ pairs : List (Nat × Nat), (pairs.map Prod.fst).Perm weights ∧ kraft (pairs.map Prod.snd) ≤ 1 ∧ total pairs ≤ budget

theorem Affords.perm {weights others : List Nat} {budget : Nat} (affords : Affords weights budget)
    (same : weights.Perm others) : Affords others budget := by
  obtain ⟨pairs, own, fits, cheap⟩ := affords
  exact ⟨pairs, own.trans same, fits, cheap⟩

theorem exists_pair {pairs : List (Nat × Nat)} {weight : Nat} {weights : List Nat}
    (own : (pairs.map Prod.fst).Perm (weight :: weights)) :
    ∃ length rest, pairs.Perm ((weight, length) :: rest) ∧ (rest.map Prod.fst).Perm weights := by
  obtain ⟨⟨_, length⟩, member, rfl⟩ := List.mem_map.mp (own.mem_iff.mpr List.mem_cons_self)
  have split := List.perm_cons_erase member
  exact ⟨length, _, split, ((split.map Prod.fst).symm.trans own).cons_inv⟩

theorem total_perm {pairs others : List (Nat × Nat)} (same : pairs.Perm others) : total pairs = total others :=
  (same.map _).sum_eq

theorem affords_joined (weight : Nat) {weights : List Nat} {pairs : List (Nat × Nat)} {long short : Nat}
    (own : (pairs.map Prod.fst).Perm weights) (below : ∀ length ∈ pairs.map Prod.snd, length ≤ short)
    (fits : kraft (long :: short :: pairs.map Prod.snd) ≤ 1) :
    ∃ rest, Affords (weight :: weights) rest ∧ rest + weight = weight * short + total pairs := by
  obtain ⟨positive, fits'⟩ := kraft_merge below fits
  obtain ⟨shorter, rfl⟩ := Nat.exists_eq_add_of_le' positive
  refine ⟨weight * shorter + total pairs, ⟨(weight, shorter) :: pairs, own.cons weight, fits', Nat.le_refl _⟩, ?_⟩
  rw [Nat.mul_succ]
  omega

theorem Affords.merge {first second : Nat} {weights : List Nat} {budget : Nat}
    (affords : Affords (first :: second :: weights) budget)
    (lightest : ∀ weight ∈ weights, first ≤ weight ∧ second ≤ weight) :
    ∃ rest, Affords ((first + second) :: weights) rest ∧ rest + (first + second) ≤ budget := by
  obtain ⟨pairs, own, fits, cheap⟩ := affords
  obtain ⟨a, others, split, own⟩ := exists_pair own
  obtain ⟨b, others, split', own⟩ := exists_pair own
  have whole : pairs.Perm ((first, a) :: (second, b) :: others) := split.trans (split'.cons _)
  have lighter : ∀ pair ∈ others, first ≤ pair.1 ∧ second ≤ pair.1 :=
    fun pair member => lightest pair.1 (own.mem_iff.mp (List.mem_map_of_mem member))
  obtain ⟨a', b', others', same, lengths, greatest, cheaper⟩ := exchange lighter a b
  have lengths' : (pairs.map Prod.snd).Perm (a' :: b' :: others'.map Prod.snd) :=
    (whole.map Prod.snd).trans lengths.symm
  rw [kraft_perm lengths'] at fits
  rw [total_perm whole] at cheap
  rw [← same] at own
  simp only [total_cons] at cheaper cheap
  rcases Nat.le_total a' b' with order | order
  · rw [kraft_perm (List.Perm.swap b' a' _)] at fits
    obtain ⟨rest, affords, spent⟩ := affords_joined (first + second) own (fun l member => (greatest l member).1) fits
    have shorter : second * a' ≤ second * b' := Nat.mul_le_mul_left _ order
    rw [Nat.add_mul] at spent
    exact ⟨rest, affords, by omega⟩
  · obtain ⟨rest, affords, spent⟩ := affords_joined (first + second) own (fun l member => (greatest l member).2) fits
    have shorter : first * b' ≤ first * a' := Nat.mul_le_mul_left _ order
    rw [Nat.add_mul] at spent
    exact ⟨rest, affords, by omega⟩

variable {α : Type*} {freq : α → Nat}

def cost (freq : α → Nat) : CodeTree α → Nat
  | leaf _ => 0
  | node left right => left.cost freq + right.cost freq + (left.weight freq + right.weight freq)

/-- Lengths for the trees, together with the bits below their roots, stay within the budget. -/
def Within (freq : α → Nat) (forest : List (CodeTree α)) (budget : Nat) : Prop :=
  ∃ rest, Affords (forest.map (weight freq)) rest ∧ rest + (forest.map (cost freq)).sum ≤ budget

theorem Merges.within {forest next rest : List (CodeTree α)} {left right : CodeTree α}
    (merges : Merges freq forest next left right rest) {budget : Nat} (within : Within freq forest budget) :
    Within freq next budget := by
  obtain ⟨spare, affords, spent⟩ := within
  have lightest : ∀ weight_ ∈ rest.map (weight freq), left.weight freq ≤ weight_ ∧ right.weight freq ≤ weight_ := by
    intro weight_ member
    obtain ⟨tree, inside, rfl⟩ := List.mem_map.mp member
    exact merges.lightest tree inside
  obtain ⟨spare', affords', less⟩ := (affords.perm (merges.before.map _)).merge lightest
  have before := (merges.before.map (cost freq)).sum_eq
  have after := (merges.after.map (cost freq)).sum_eq
  simp only [List.map_cons, List.sum_cons] at before after
  refine ⟨spare', affords'.perm (merges.after.map (weight freq)).symm, ?_⟩
  rw [after, cost]
  omega

theorem Within.cost_le {tree : CodeTree α} {budget : Nat} (within : Within freq [tree] budget) :
    tree.cost freq ≤ budget := by
  obtain ⟨rest, -, spent⟩ := within
  simp only [List.map_cons, List.map_nil, List.sum_cons, List.sum_nil] at spent
  omega

/-! ## Prefix codes -/

def PrefixCode (symbols : List α) (code : α → List Bool) : Prop :=
  ∀ a ∈ symbols, ∀ b ∈ symbols, code a <+: code b → a = b

def bitsOf (freq : α → Nat) (symbols : List α) (code : α → List Bool) : Nat :=
  (symbols.map fun symbol => freq symbol * (code symbol).length).sum

section Codes

variable {symbols : List α} {code : α → List Bool} (prefixCode : PrefixCode symbols code)

include prefixCode

theorem PrefixCode.ne_nil (nodup : symbols.Nodup) (two : 2 ≤ symbols.length) {a : α} (member : a ∈ symbols) :
    code a ≠ [] := by
  intro empty
  obtain ⟨b, other, apart⟩ : ∃ b ∈ symbols, b ≠ a := by
    by_contra none_
    push Not at none_
    rw [List.eq_replicate_of_mem none_, List.nodup_replicate] at nodup
    exact absurd nodup (Nat.not_le_of_lt two)
  exact apart (prefixCode a member b other (empty ▸ List.nil_prefix)).symm

theorem PrefixCode.uniquelyDecodable (words : ∀ a ∈ symbols, code a ≠ []) :
    InformationTheory.UniquelyDecodable {word | word ∈ symbols.map code} := by
  intro left
  induction left with
  | nil =>
      intro right _ inside same
      cases right with
      | nil => rfl
      | cons word right =>
          obtain ⟨a, member, rfl⟩ := List.mem_map.mp (inside _ List.mem_cons_self)
          exact absurd (List.append_eq_nil_iff.mp same.symm).1 (words a member)
  | cons word left ih =>
      intro right inside inside' same
      obtain ⟨a, member, rfl⟩ := List.mem_map.mp (inside _ List.mem_cons_self)
      cases right with
      | nil => exact absurd (List.append_eq_nil_iff.mp same).1 (words a member)
      | cons word right =>
          obtain ⟨b, member', rfl⟩ := List.mem_map.mp (inside' _ List.mem_cons_self)
          rw [List.flatten_cons, List.flatten_cons] at same
          have front : code a <+: code b ++ right.flatten := ⟨left.flatten, same⟩
          have equal : a = b := by
            cases List.prefix_or_prefix_of_prefix front (List.prefix_append _ _) with
            | inl first => exact prefixCode a member b member' first
            | inr second => exact (prefixCode b member' a member second).symm
          subst equal
          rw [ih right (fun w inLeft => inside w (List.mem_cons_of_mem _ inLeft))
            (fun w inRight => inside' w (List.mem_cons_of_mem _ inRight)) (List.append_cancel_left same)]

theorem PrefixCode.kraft_le (nodup : symbols.Nodup) (two : 2 ≤ symbols.length) :
    kraft (symbols.map fun symbol => (code symbol).length) ≤ 1 := by
  have words : ∀ a ∈ symbols, code a ≠ [] := fun a => prefixCode.ne_nil nodup two
  have distinct : (symbols.map code).Nodup := by
    apply List.Nodup.map_on _ nodup
    intro a member b member' same
    exact prefixCode a member b member' (same ▸ List.prefix_rfl)
  have decodable : InformationTheory.UniquelyDecodable ((symbols.map code).toFinset : Set (List Bool)) := by
    rw [List.coe_toFinset]
    exact prefixCode.uniquelyDecodable words
  have bound := InformationTheory.kraft_mcmillan_inequality decodable
  rw [List.sum_toFinset _ distinct, List.map_map] at bound
  rw [kraft, List.map_map]
  simpa [Function.comp_def] using bound

theorem PrefixCode.within (nodup : symbols.Nodup) (two : 2 ≤ symbols.length) :
    Within freq (symbols.map leaf) (bitsOf freq symbols code) := by
  have fits := prefixCode.kraft_le nodup two
  have free : ((symbols.map leaf).map (cost freq)).sum = 0 := by
    simp [Function.comp_def, cost]
  refine ⟨bitsOf freq symbols code, ⟨symbols.map fun symbol => (freq symbol, (code symbol).length), ?_, ?_, ?_⟩, ?_⟩
  · rw [List.map_map, List.map_map]
    exact List.Perm.refl _
  · rwa [List.map_map]
  · rw [total, List.map_map]
    exact Nat.le_refl _
  · rw [free, Nat.add_zero]

end Codes

theorem bitsOf_step {symbols : List α} {code longer : α → List Bool} {bit : Bool}
    (step : ∀ symbol ∈ symbols, longer symbol = bit :: code symbol) :
    bitsOf freq symbols longer = bitsOf freq symbols code + (symbols.map freq).sum := by
  induction symbols with
  | nil => rfl
  | cons symbol symbols ih =>
      have rest := ih fun other member => step other (List.mem_cons_of_mem _ member)
      simp only [bitsOf, List.map_cons, List.sum_cons] at rest ⊢
      rw [rest, step symbol List.mem_cons_self, List.length_cons, Nat.mul_succ]
      omega

variable [DecidableEq α]

theorem mem_leaves_of_path {symbol : α} {tree : CodeTree α} {bits : List Bool}
    (found : tree.path symbol = some bits) : symbol ∈ tree.leaves := by
  induction tree generalizing bits with
  | leaf other =>
      obtain ⟨rfl, -⟩ := path_leaf_cases found
      exact List.mem_singleton_self other
  | node left right leftIh rightIh =>
      rcases path_node_cases found with ⟨rest, inLeft, -⟩ | ⟨rest, -, inRight, -⟩
      · exact List.mem_append_left _ (leftIh inLeft)
      · exact List.mem_append_right _ (rightIh inRight)

def word (tree : CodeTree α) (symbol : α) : List Bool := (tree.path symbol).getD []

theorem word_left {left right : CodeTree α} {symbol : α} (member : symbol ∈ left.leaves) :
    (node left right).word symbol = false :: left.word symbol := by
  obtain ⟨bits, found⟩ := exists_path member
  simp only [word, path, found, Option.getD_some]

theorem word_right {left right : CodeTree α} {symbol : α} (outside : symbol ∉ left.leaves)
    (member : symbol ∈ right.leaves) : (node left right).word symbol = true :: right.word symbol := by
  obtain ⟨bits, found⟩ := exists_path member
  have absent : left.path symbol = none := by
    cases inLeft : left.path symbol with
    | none => rfl
    | some bits => exact absurd (mem_leaves_of_path inLeft) outside
  simp only [word, path, absent, found, Option.map_some, Option.getD_some]

theorem word_prefixCode (tree : CodeTree α) : PrefixCode tree.leaves tree.word := by
  induction tree with
  | leaf symbol =>
      intro a member b member' _
      rw [List.mem_singleton.mp member, List.mem_singleton.mp member']
  | node left right leftIh rightIh =>
      have side : ∀ symbol ∈ (node left right).leaves, symbol ∈ left.leaves ∨ symbol ∉ left.leaves ∧ symbol ∈ right.leaves := by
        intro symbol member
        by_cases inLeft : symbol ∈ left.leaves
        · exact .inl inLeft
        · exact .inr ⟨inLeft, (List.mem_append.mp member).resolve_left inLeft⟩
      intro a member b member' front
      rcases side a member with inLeft | ⟨outside, inRight⟩ <;>
        rcases side b member' with inLeft' | ⟨outside', inRight'⟩
      · rw [word_left inLeft, word_left inLeft', List.cons_prefix_cons] at front
        exact leftIh a inLeft b inLeft' front.2
      · rw [word_left inLeft, word_right outside' inRight', List.cons_prefix_cons] at front
        cases front.1
      · rw [word_right outside inRight, word_left inLeft', List.cons_prefix_cons] at front
        cases front.1
      · rw [word_right outside inRight, word_right outside' inRight', List.cons_prefix_cons] at front
        exact rightIh a inRight b inRight' front.2

theorem bitsOf_word (freq : α → Nat) (tree : CodeTree α) (nodup : tree.leaves.Nodup) :
    bitsOf freq tree.leaves tree.word = tree.cost freq := by
  induction tree with
  | leaf symbol => simp [bitsOf, leaves, word, path, cost]
  | node left right leftIh rightIh =>
      obtain ⟨leftNodup, rightNodup, apart⟩ := List.nodup_append.mp nodup
      have onLeft : bitsOf freq left.leaves (node left right).word =
          bitsOf freq left.leaves left.word + (left.leaves.map freq).sum :=
        bitsOf_step fun symbol member => word_left member
      have onRight : bitsOf freq right.leaves (node left right).word =
          bitsOf freq right.leaves right.word + (right.leaves.map freq).sum :=
        bitsOf_step fun symbol member => word_right (fun inLeft => apart symbol inLeft symbol member rfl) member
      have both : bitsOf freq (node left right).leaves (node left right).word =
          bitsOf freq left.leaves (node left right).word + bitsOf freq right.leaves (node left right).word := by
        rw [bitsOf, leaves, List.map_append, List.sum_append]
        rfl
      rw [both, onLeft, onRight, leftIh leftNodup, rightIh rightNodup, ← weight_eq_sum, ← weight_eq_sum, cost]
      omega

end KnowledgeAcquisition.Library.CodeTree
