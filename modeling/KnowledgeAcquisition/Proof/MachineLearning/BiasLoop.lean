import KnowledgeAcquisition.Proof.MachineLearning.DenseLayer

/-!
# The loop over the bias

The threads of the loop all add to the same elements, so a contribution can get lost as soon as two of them have rows.
-/

namespace KnowledgeAcquisition.Proof.MachineLearning
open KnowledgeAcquisition.MachineLearning Library Distribution Accumulation

variable {α : Type*} {rows cols : Nat}

theorem team_flatten (distribution : Distribution rows) (cols : Nat) :
    (distribution.team cols).flatten = List.finRange rows := by
  unfold team
  split
  · exact distribution.covers
  · exact List.flatten_singleton

theorem mem_additions {gradient : Fin rows → Fin cols → α} {block : List (Fin rows)} {j : Fin cols} {a : α} :
    (j, a) ∈ additions gradient block ↔ ∃ i ∈ block, gradient i j = a := by
  simp only [additions, List.mem_flatMap, List.mem_map, List.mem_finRange, true_and, Prod.mk.injEq]
  constructor
  · rintro ⟨i, member, j, rfl, rfl⟩
    exact ⟨i, member, rfl⟩
  · rintro ⟨i, member, rfl⟩
    exact ⟨i, member, j, rfl, rfl⟩

theorem additions_getD (gradient : Fin rows → Fin cols → α) (blocks : List (List (Fin rows))) (t : Nat) :
    (blocks.map (additions gradient)).getD t [] = additions gradient (blocks.getD t []) :=
  List.getD_map blocks [] (additions gradient)

variable [AddCommGroup α]

theorem owed_additions (gradient : Fin rows → Fin cols → α) (block : List (Fin rows)) (j : Fin cols) :
    owed j (additions gradient block) = (block.map (gradient · j)).sum := by
  induction block with
  | nil => rfl
  | cons i block ih =>
      have row : owed j ((List.finRange cols).map fun j => (j, gradient i j)) = gradient i j := by
        rw [owed, List.map_map, ← List.ofFn_eq_map, List.sum_ofFn]
        exact Fintype.sum_ite_eq' j fun j => gradient i j
      rw [List.map_cons, List.sum_cons, ← ih, additions, List.flatMap_cons, owed_append, row, additions]

theorem owed_all (gradient : Fin rows → Fin cols → α) {blocks : List (List (Fin rows))}
    (covers : blocks.flatten = List.finRange rows) (j : Fin cols) :
    owed j (blocks.map (additions gradient)).flatten = ∑ i, gradient i j := by
  have joined : (blocks.map (additions gradient)).flatten = additions gradient blocks.flatten := by
    rw [additions, List.flatMap_def, List.map_flatten, List.flatten_flatten, List.map_map]
    rfl
  rw [joined, owed_additions, covers, ← List.ofFn_eq_map, List.sum_ofFn]

def OneThread (distribution : Distribution rows) : Prop :=
  ∀ t t', t ≠ t' → distribution.blocks.getD t [] = [] ∨ distribution.blocks.getD t' [] = []

def Separate (gradient : Fin rows → Fin cols → α) (blocks : List (List (Fin rows))) : Prop :=
  ∀ j t t' a b, t ≠ t' → (j, a) ∈ additions gradient (blocks.getD t []) → (j, b) ∈ additions gradient (blocks.getD t' []) →
    a = 0

theorem Separate.zero {distribution : Distribution rows} {gradient : Fin rows → Fin cols → α}
    (separate : Separate gradient distribution.blocks) (several : ¬ OneThread distribution) : ∀ i j, gradient i j = 0 := by
  intro i j
  unfold OneThread at several
  push Not at several
  obtain ⟨t, t', different, some_t, some_t'⟩ := several
  obtain ⟨k, mine⟩ := List.exists_mem_of_ne_nil _ some_t
  obtain ⟨k', yours⟩ := List.exists_mem_of_ne_nil _ some_t'
  obtain ⟨block, isBlock, inBlock⟩ := List.mem_flatten.mp (distribution.covers ▸ List.mem_finRange i)
  obtain ⟨τ, inside, rfl⟩ := List.getElem_of_mem isBlock
  rw [← List.getD_eq_getElem _ [] inside] at inBlock
  have here : (j, gradient i j) ∈ additions gradient (distribution.blocks.getD τ []) :=
    mem_additions.mpr ⟨i, inBlock, rfl⟩
  by_cases same : τ = t
  · exact separate j τ t' _ _ (same ▸ different) here (mem_additions.mpr ⟨k', yours, rfl⟩)
  · exact separate j τ t _ _ same here (mem_additions.mpr ⟨k, mine, rfl⟩)

theorem separate_blocks {distribution : Distribution rows} {gradient : Fin rows → Fin cols → α}
    (safe : OneThread distribution ∨ ∀ i j, gradient i j = 0) : Separate gradient distribution.blocks := by
  intro j t t' a b different mine yours
  obtain ⟨i, inBlock, rfl⟩ := mem_additions.mp mine
  obtain ⟨i', inBlock', rfl⟩ := mem_additions.mp yours
  rcases safe with alone | zero
  · rcases alone t t' different with none | none
    · rw [none] at inBlock
      cases inBlock
    · rw [none] at inBlock'
      cases inBlock'
  · exact zero i j

theorem separate_singleton (gradient : Fin rows → Fin cols → α) (block : List (Fin rows)) :
    Separate gradient [block] := by
  have first : ∀ t j a, (j, a) ∈ additions gradient ([block].getD t []) → t = 0 := by
    intro t j a member
    cases t with
    | zero => rfl
    | succ t => cases member
  intro j t t' a b different mine yours
  exact absurd ((first t j a mine).trans (first t' j b yours).symm) different

theorem shared_iff (distribution : Distribution rows) (gradient : Fin rows → Fin cols → α) :
    Separate gradient (distribution.team cols) ↔
      sizeT (rows * cols) ≤ 256 ∨ OneThread distribution ∨ ∀ i j, gradient i j = 0 := by
  by_cases parallel : sizeT (rows * cols) > 256
  · have team : distribution.team cols = distribution.blocks := if_pos parallel
    rw [team, or_iff_right (Nat.not_le.mpr parallel)]
    constructor
    · intro separate
      by_cases alone : OneThread distribution
      · exact Or.inl alone
      · exact Or.inr (separate.zero alone)
    · exact separate_blocks
  · have team : distribution.team cols = [List.finRange rows] := if_neg parallel
    rw [team]
    exact iff_of_true (separate_singleton gradient _) (Or.inl (Nat.le_of_not_lt parallel))

theorem exact_iff_separate (distribution : Distribution rows) (gradient : Fin rows → Fin cols → α)
    (dBias : Fin cols → α) :
    (∀ schedule s, Trace.run step (distribution.biasLoop gradient dBias) schedule = some s → s.Finished →
        ∀ j, s.cells j = dBias j + ∑ i, gradient i j) ↔ Separate gradient (distribution.team cols) := by
  have column := fun j => exact_iff dBias ((distribution.team cols).map (additions gradient)) j
  simp only [owed_all gradient (team_flatten distribution cols), additions_getD] at column
  constructor
  · intro exact j
    exact (column j).mp fun schedule s ran finished => exact schedule s ran finished j
  · intro separate schedule s ran finished j
    exact (column j).mpr (separate j) schedule s ran finished

theorem bias_exact_iff (distribution : Distribution rows) (incomingGradient : Fin rows → Fin cols → α)
    (dBias : Fin cols → α) :
    (∀ schedule s, Trace.run step (distribution.biasLoop incomingGradient dBias) schedule = some s → s.Finished →
        ∀ j, s.cells j = dBias j + ∑ i, incomingGradient i j) ↔
      sizeT (rows * cols) ≤ 256 ∨ OneThread distribution ∨ ∀ i j, incomingGradient i j = 0 :=
  (exact_iff_separate distribution incomingGradient dBias).trans (shared_iff distribution incomingGradient)

/-- Two threads with a row each, in a gradient of ones that is just large enough. -/
theorem bias_loop_loses :
    let distribution : Distribution 2 := { blocks := [[0], [1]], covers := rfl }
    let incomingGradient : Fin 2 → Fin 129 → Int := fun _ _ => 1
    ¬ ∀ schedule s, Trace.run step (distribution.biasLoop incomingGradient fun _ => 0) schedule = some s → s.Finished →
        ∀ j, s.cells j = 0 + ∑ i, incomingGradient i j := by
  intro distribution incomingGradient exact
  have different : 0 ≠ 1 := Nat.zero_ne_one
  have mine : ((0 : Fin 129), (1 : Int)) ∈ ((distribution.team 129).map (additions incomingGradient)).getD 0 [] :=
    mem_additions.mpr ⟨0, List.mem_singleton_self _, rfl⟩
  have yours : ((0 : Fin 129), (1 : Int)) ∈ ((distribution.team 129).map (additions incomingGradient)).getD 1 [] :=
    mem_additions.mpr ⟨1, List.mem_singleton_self _, rfl⟩
  obtain ⟨schedule, s, ran, finished, final⟩ :=
    @lost_update _ _ _ _ 0 1 0 1 1 (fun _ => 0) ((distribution.team 129).map (additions incomingGradient)) different mine
      yours
  have sum := exact schedule s ran finished 0
  rw [owed_all incomingGradient (team_flatten distribution 129), sum] at final
  omega

end KnowledgeAcquisition.Proof.MachineLearning
