import KnowledgeAcquisition.Compress.Huffman
import KnowledgeAcquisition.Library.OptimalCode
import Mathlib.Data.List.Forall2
import Mathlib.Data.List.Dedup

/-!
# The tree of a string

The merging loop is Huffman's algorithm on the trees that the active nodes stand for, and the renumbering lays the
last of them out in the flat tree.
-/

namespace KnowledgeAcquisition.Proof.Compress
open KnowledgeAcquisition.Compress Library

theorem int16_of_small {value : Int} (low : -32768 ≤ value) (high : value < 32768) : int16 value = value := by
  unfold int16
  omega

theorem pushBack_of_room {T : Type} {capacity : Nat} {data : List T} (room : data.length < capacity) (val : T) :
    pushBack capacity data val = some (data ++ [val]) :=
  if_pos room

@[simp] theorem element?_ofNat {T : Type} (data : List T) (idx : Nat) : element? data idx = data[idx]? := by
  rw [element?, if_pos (Int.natCast_nonneg idx), Int.toNat_natCast]

def Active (nodes : List TempNode) (i weight : Nat) : Prop :=
  ∃ n, nodes[i]? = some n ∧ n.isActive = true ∧ n.freq = weight

theorem Active.unique {nodes : List TempNode} {i weight other : Nat} (active : Active nodes i weight)
    (again : Active nodes i other) : weight = other := by
  obtain ⟨n, found, -, rfl⟩ := active
  obtain ⟨n', found', -, rfl⟩ := again
  rw [found] at found'
  rw [Option.some.inj found']

theorem Active.lt {nodes : List TempNode} {i weight : Nat} (active : Active nodes i weight) : i < nodes.length := by
  obtain ⟨n, found, -⟩ := active
  exact (List.getElem?_eq_some_iff.mp found).1

inductive Chosen (nodes : List TempNode) (bound : Nat) : Option Nat × Option Nat → Prop where
  | nothing (empty : ∀ i < bound, ∀ weight, ¬ Active nodes i weight) : Chosen nodes bound (none, none)
  | one {first light : Nat} (below : first < bound) (active : Active nodes first light)
      (only : ∀ i < bound, ∀ weight, Active nodes i weight → i = first) : Chosen nodes bound (some first, none)
  | two {first second light next : Nat} (below : first < bound) (below' : second < bound) (apart : first ≠ second)
      (active : Active nodes first light) (active' : Active nodes second next) (order : light ≤ next)
      (least : ∀ i < bound, ∀ weight, Active nodes i weight → i = first ∨ i = second ∨ next ≤ weight) :
      Chosen nodes bound (some first, some second)

theorem Chosen.skip {nodes : List TempNode} {bound : Nat} {chosen : Option Nat × Option Nat}
    (before : Chosen nodes bound chosen) (idle : ∀ weight, ¬ Active nodes bound weight) :
    Chosen nodes (bound + 1) chosen := by
  have earlier : ∀ i < bound + 1, ∀ weight, Active nodes i weight → i < bound := by
    intro i below weight active
    cases Nat.lt_succ_iff_lt_or_eq.mp below with
    | inl less => exact less
    | inr same => exact absurd (same ▸ active) (idle weight)
  cases before with
  | nothing empty => exact .nothing fun i below weight active => empty i (earlier i below weight active) weight active
  | one below active only =>
      exact .one (Nat.lt_succ_of_lt below) active
        fun i below weight active => only i (earlier i below weight active) weight active
  | two below below' apart active active' order least =>
      exact .two (Nat.lt_succ_of_lt below) (Nat.lt_succ_of_lt below') apart active active' order
        fun i below weight active => least i (earlier i below weight active) weight active

theorem lighter_none (nodes : List TempNode) (n : TempNode) : lighter nodes n none = some true := rfl

theorem lighter_active {nodes : List TempNode} {n : TempNode} {idx weight : Nat} (active : Active nodes idx weight) :
    lighter nodes n (some idx) = some (decide (n.freq < weight)) := by
  obtain ⟨other, found, -, rfl⟩ := active
  rw [lighter, found]
  rfl

theorem scanNode_active {nodes : List TempNode} {i : Nat} {n : TempNode} (found : nodes[i]? = some n)
    (active : n.isActive = true) (chosen : Option Nat × Option Nat) {less less' : Bool}
    (light : lighter nodes n chosen.1 = some less) (light' : lighter nodes n chosen.2 = some less') :
    scanNode nodes chosen i =
      some (if less then (some i, chosen.1) else if less' then (chosen.1, some i) else chosen) := by
  unfold scanNode
  rw [found]
  cases less <;> cases less' <;> simp [active, light, light']

section
variable {nodes : List TempNode} {i : Nat} {n : TempNode} (found : nodes[i]? = some n) (active : n.isActive = true)
include found active

theorem scan_nothing (empty : ∀ j < i, ∀ weight, ¬ Active nodes j weight) :
    ∃ next, scanNode nodes (none, none) i = some next ∧ Chosen nodes (i + 1) next := by
  refine ⟨_, scanNode_active found active _ (lighter_none nodes n) (lighter_none nodes n), ?_⟩
  refine .one (Nat.lt_succ_self i) ⟨n, found, active, rfl⟩ ?_
  intro j below weight other
  cases Nat.lt_succ_iff_lt_or_eq.mp below with
  | inl earlier => exact absurd other (empty j earlier weight)
  | inr same => exact same

theorem scan_one {first light : Nat} (below : first < i) (first' : Active nodes first light)
    (only : ∀ j < i, ∀ weight, Active nodes j weight → j = first) :
    ∃ next, scanNode nodes (some first, none) i = some next ∧ Chosen nodes (i + 1) next := by
  have here : Active nodes i n.freq := ⟨n, found, active, rfl⟩
  have either : ∀ j < i + 1, ∀ weight, Active nodes j weight → j = first ∨ j = i := by
    intro j upper weight other
    cases Nat.lt_succ_iff_lt_or_eq.mp upper with
    | inl earlier => exact Or.inl (only j earlier weight other)
    | inr same => exact Or.inr same
  refine ⟨_, scanNode_active found active _ (lighter_active first') (lighter_none nodes n), ?_⟩
  by_cases less : n.freq < light
  · rw [if_pos (decide_eq_true less)]
    refine .two (Nat.lt_succ_self i) (Nat.lt_succ_of_lt below) (Nat.ne_of_gt below) here first' (Nat.le_of_lt less) ?_
    intro j upper weight other
    exact (either j upper weight other).symm.imp_right Or.inl
  · rw [if_neg (by simp [less]), if_pos rfl]
    refine .two (Nat.lt_succ_of_lt below) (Nat.lt_succ_self i) (Nat.ne_of_lt below) first' here
      (Nat.le_of_not_lt less) ?_
    intro j upper weight other
    exact (either j upper weight other).imp_right Or.inl

theorem scan_two {first second light next : Nat} (below : first < i) (below' : second < i) (apart : first ≠ second)
    (first' : Active nodes first light) (second' : Active nodes second next) (order : light ≤ next)
    (least : ∀ j < i, ∀ weight, Active nodes j weight → j = first ∨ j = second ∨ next ≤ weight) :
    ∃ chosen, scanNode nodes (some first, some second) i = some chosen ∧ Chosen nodes (i + 1) chosen := by
  have here : Active nodes i n.freq := ⟨n, found, active, rfl⟩
  -- The node that stops being the second one is as heavy as those that were left out before.
  have either : ∀ j < i + 1, ∀ weight, Active nodes j weight → j = i ∨ j = first ∨ next ≤ weight := by
    intro j upper weight other
    cases Nat.lt_succ_iff_lt_or_eq.mp upper with
    | inr same => exact Or.inl same
    | inl earlier =>
        rcases least j earlier weight other with same | rfl | heavier
        · exact Or.inr (Or.inl same)
        · exact Or.inr (Or.inr (Nat.le_of_eq (second'.unique other)))
        · exact Or.inr (Or.inr heavier)
  refine ⟨_, scanNode_active found active _ (lighter_active first') (lighter_active second'), ?_⟩
  by_cases less : n.freq < light
  · rw [if_pos (decide_eq_true less)]
    refine .two (Nat.lt_succ_self i) (Nat.lt_succ_of_lt below) (Nat.ne_of_gt below) here first' (Nat.le_of_lt less) ?_
    intro j upper weight other
    exact (either j upper weight other).imp_right (Or.imp_right order.trans)
  · rw [if_neg (by simp [less])]
    by_cases between : n.freq < next
    · rw [if_pos (decide_eq_true between)]
      refine .two (Nat.lt_succ_of_lt below) (Nat.lt_succ_self i) (Nat.ne_of_lt below) first' here
        (Nat.le_of_not_lt less) ?_
      intro j upper weight other
      rcases either j upper weight other with same | same | heavier
      · exact Or.inr (Or.inl same)
      · exact Or.inl same
      · exact Or.inr (Or.inr ((Nat.le_of_lt between).trans heavier))
    · rw [if_neg (by simp [between])]
      refine .two (Nat.lt_succ_of_lt below) (Nat.lt_succ_of_lt below') apart first' second' order ?_
      intro j upper weight other
      rcases either j upper weight other with rfl | same | heavier
      · exact Or.inr (Or.inr (other.unique here ▸ Nat.le_of_not_lt between))
      · exact Or.inl same
      · exact Or.inr (Or.inr heavier)

end

theorem scanNode_chosen {nodes : List TempNode} (i : Nat) (chosen : Option Nat × Option Nat) (inside : i < nodes.length)
    (before : Chosen nodes i chosen) : ∃ next, scanNode nodes chosen i = some next ∧ Chosen nodes (i + 1) next := by
  have found : nodes[i]? = some nodes[i] := List.getElem?_eq_getElem inside
  cases active : nodes[i].isActive with
  | false =>
      refine ⟨chosen, by simp [scanNode, found, active], before.skip ?_⟩
      rintro weight ⟨n, found', active', -⟩
      rw [found] at found'
      rw [← Option.some.inj found', active] at active'
      cases active'
  | true =>
      cases before with
      | nothing empty => exact scan_nothing found active empty
      | one below first only => exact scan_one found active below first only
      | two below below' apart first second order least =>
          exact scan_two found active below below' apart first second order least

theorem scan_chosen (nodes : List TempNode) :
    ∃ chosen, (List.range nodes.length).foldlM (scanNode nodes) (none, none) = some chosen ∧
      Chosen nodes nodes.length chosen := by
  apply Loop.foldlM_range_total (I := Chosen nodes) scanNode_chosen
  exact .nothing fun i below => absurd below (Nat.not_lt_zero i)

/-! ## The forest of the active nodes -/

/-- The tree below the node at `idx`. -/
def StandsFor (nodes : List TempNode) : CodeTree UInt8 → Int → Prop
  | .leaf symbol, idx => ∃ n, element? nodes idx = some n ∧ n.ch = symbol ∧ symbol ≠ 0
  | .node left right, idx =>
      ∃ n, element? nodes idx = some n ∧ n.ch = 0 ∧ StandsFor nodes left n.leftChild ∧
        StandsFor nodes right n.rightChild

def Kept (nodes next : List TempNode) : Prop :=
  ∀ (i : Nat) (n : TempNode), nodes[i]? = some n → ∃ active, next[i]? = some { n with isActive := active }

theorem Kept.element? {nodes next : List TempNode} (kept : Kept nodes next) {idx : Int} {n : TempNode}
    (found : element? nodes idx = some n) :
    ∃ active, Compress.element? next idx = some { n with isActive := active } := by
  unfold Compress.element? at *
  split_ifs at * with inside
  exact kept idx.toNat n found

theorem StandsFor.kept {nodes next : List TempNode} (kept : Kept nodes next) {tree : CodeTree UInt8} {idx : Int}
    (stands : StandsFor nodes tree idx) : StandsFor next tree idx := by
  induction tree generalizing idx with
  | leaf symbol =>
      obtain ⟨n, found, ch, own⟩ := stands
      obtain ⟨active, found'⟩ := kept.element? found
      exact ⟨_, found', ch, own⟩
  | node left right leftIh rightIh =>
      obtain ⟨n, found, ch, onLeft, onRight⟩ := stands
      obtain ⟨active, found'⟩ := kept.element? found
      exact ⟨_, found', ch, leftIh onLeft, rightIh onRight⟩

/-- The active nodes, and the trees that they stand for. -/
structure Forest (freq : UInt8 → Nat) (nodes : List TempNode) (forest : List (Nat × CodeTree UInt8)) : Prop where
  distinct : (forest.map Prod.fst).Nodup
  active : ∀ i weight, Active nodes i weight ↔ ∃ tree, (i, tree) ∈ forest ∧ tree.weight freq = weight
  stands : ∀ i tree, (i, tree) ∈ forest → StandsFor nodes tree i

theorem Forest.perm {freq : UInt8 → Nat} {nodes : List TempNode} {forest other : List (Nat × CodeTree UInt8)}
    (holds : Forest freq nodes forest) (same : forest.Perm other) : Forest freq nodes other where
  distinct := (same.map Prod.fst).nodup_iff.mp holds.distinct
  active i weight := by simp only [holds.active, same.mem_iff]
  stands i tree member := holds.stands i tree (same.mem_iff.mpr member)

def parentOf (first second : Nat) (lightest next : TempNode) : TempNode :=
  { ch := 0, freq := lightest.freq + next.freq, leftChild := first, rightChild := second }

def merged (nodes : List TempNode) (first second : Nat) (lightest next : TempNode) : List TempNode :=
  (nodes.set first (deactivate lightest)).set second (deactivate next) ++ [parentOf first second lightest next]

section
variable {freq : UInt8 → Nat} {nodes : List TempNode} {first second : Nat} {lightest next : TempNode}
  (firstAt : nodes[first]? = some lightest) (secondAt : nodes[second]? = some next)
include firstAt secondAt

theorem merged_getElem? {i : Nat} (inside : i < nodes.length) :
    (merged nodes first second lightest next)[i]? =
      if i = first ∨ i = second then nodes[i]?.map deactivate else nodes[i]? := by
  rw [merged, List.getElem?_append_left (by simpa using inside), List.getElem?_set, List.getElem?_set]
  by_cases isSecond : second = i
  · rw [← isSecond, if_pos rfl, if_pos (by simpa [isSecond] using inside), if_pos (Or.inr rfl), secondAt]
    rfl
  · rw [if_neg isSecond]
    by_cases isFirst : first = i
    · rw [← isFirst, if_pos rfl, if_pos (isFirst ▸ inside), if_pos (Or.inl rfl), firstAt]
      rfl
    · rw [if_neg isFirst, if_neg (not_or.mpr ⟨Ne.symm isFirst, Ne.symm isSecond⟩)]

theorem kept_merged : Kept nodes (merged nodes first second lightest next) := by
  intro i n found
  have inside := (List.getElem?_eq_some_iff.mp found).1
  rw [merged_getElem? firstAt secondAt inside, found]
  split_ifs
  · exact ⟨false, rfl⟩
  · exact ⟨n.isActive, rfl⟩

theorem active_merged (i weight : Nat) :
    Active (merged nodes first second lightest next) i weight ↔
      (i ≠ first ∧ i ≠ second ∧ Active nodes i weight) ∨ (i = nodes.length ∧ lightest.freq + next.freq = weight) := by
  rcases Nat.lt_trichotomy i nodes.length with inside | rfl | outside
  · unfold Active
    rw [merged_getElem? firstAt secondAt inside]
    by_cases gone : i = first ∨ i = second
    · rw [if_pos gone, List.getElem?_eq_getElem inside]
      have idle : (deactivate nodes[i]).isActive = false := rfl
      have stays : ¬ (i ≠ first ∧ i ≠ second) := fun both => gone.elim both.1 both.2
      simp only [Option.map_some, Option.some.injEq, exists_eq_left', idle, Bool.false_eq_true, false_and, false_iff]
      rintro (⟨notFirst, notSecond, -⟩ | ⟨rfl, -⟩)
      · exact stays ⟨notFirst, notSecond⟩
      · exact absurd inside (Nat.lt_irrefl _)
    · rw [if_neg gone]
      have last : i ≠ nodes.length := Nat.ne_of_lt inside
      obtain ⟨notFirst, notSecond⟩ := not_or.mp gone
      simp [last, notFirst, notSecond]
  · have here : (merged nodes first second lightest next)[nodes.length]? =
        some (parentOf first second lightest next) := by
      simp [merged]
    have notActive : ¬ Active nodes nodes.length weight := fun active => absurd active.lt (Nat.lt_irrefl _)
    simp [Active, here, parentOf] at notActive ⊢
  · have nothing : (merged nodes first second lightest next)[i]? = none := by
      simp only [merged, List.getElem?_eq_none_iff, List.length_append, List.length_set, List.length_singleton]
      omega
    have notActive : ¬ Active nodes i weight := fun active => absurd active.lt (Nat.not_lt_of_gt outside)
    have last : i ≠ nodes.length := Nat.ne_of_gt outside
    simp [Active, nothing, last] at notActive ⊢
    exact fun _ _ => notActive

end

theorem Forest.lt {freq : UInt8 → Nat} {nodes : List TempNode} {forest : List (Nat × CodeTree UInt8)}
    (holds : Forest freq nodes forest) {i : Nat} {tree : CodeTree UInt8} (member : (i, tree) ∈ forest) :
    i < nodes.length :=
  Active.lt ((holds.active i (tree.weight freq)).mpr ⟨tree, member, rfl⟩)

theorem Forest.freq_eq {freq : UInt8 → Nat} {nodes : List TempNode} {forest : List (Nat × CodeTree UInt8)}
    (holds : Forest freq nodes forest) {i : Nat} {tree : CodeTree UInt8} (member : (i, tree) ∈ forest) {n : TempNode}
    (found : nodes[i]? = some n) : n.freq = tree.weight freq := by
  obtain ⟨n', found', -, weight⟩ := (holds.active i (tree.weight freq)).mpr ⟨tree, member, rfl⟩
  rw [found] at found'
  rw [Option.some.inj found', weight]

section
variable {freq : UInt8 → Nat} {nodes : List TempNode} {first second : Nat} {lightest next : TempNode}
  {left right : CodeTree UInt8} {rest : List (Nat × CodeTree UInt8)}
  (holds : Forest freq nodes ((first, left) :: (second, right) :: rest))
include holds

theorem Forest.elsewhere {i : Nat} {tree : CodeTree UInt8} (member : (i, tree) ∈ rest) :
    i ≠ first ∧ i ≠ second ∧ i < nodes.length := by
  have listed : i ∈ rest.map Prod.fst := List.mem_map.mpr ⟨(i, tree), member, rfl⟩
  have distinct := holds.distinct
  simp only [List.map_cons, List.nodup_cons, List.mem_cons, not_or] at distinct
  obtain ⟨⟨-, notFirst⟩, notSecond, -⟩ := distinct
  refine ⟨fun same => notFirst (same ▸ listed), fun same => notSecond (same ▸ listed), ?_⟩
  exact holds.lt (List.mem_cons_of_mem _ (List.mem_cons_of_mem _ member))

variable (firstAt : nodes[first]? = some lightest) (secondAt : nodes[second]? = some next)
include firstAt secondAt

theorem Forest.weight_merged :
    (CodeTree.node left right).weight freq = lightest.freq + next.freq := by
  rw [CodeTree.weight, holds.freq_eq List.mem_cons_self firstAt,
    holds.freq_eq (List.mem_cons_of_mem _ List.mem_cons_self) secondAt]

theorem Forest.active_merged (i weight : Nat) : Active (merged nodes first second lightest next) i weight ↔
    ∃ tree, (i, tree) ∈ (nodes.length, CodeTree.node left right) :: rest ∧ tree.weight freq = weight := by
  rw [Compress.active_merged firstAt secondAt, holds.active, ← holds.weight_merged firstAt secondAt]
  constructor
  · rintro (⟨notFirst, notSecond, tree, member, rfl⟩ | ⟨rfl, rfl⟩)
    · simp only [List.mem_cons, Prod.mk.injEq, notFirst, notSecond, false_and, false_or] at member
      exact ⟨tree, List.mem_cons_of_mem _ member, rfl⟩
    · exact ⟨.node left right, List.mem_cons_self, rfl⟩
  · rintro ⟨tree, member, rfl⟩
    cases List.mem_cons.mp member with
    | inl new =>
        obtain ⟨rfl, rfl⟩ := Prod.mk.inj new
        exact Or.inr ⟨rfl, rfl⟩
    | inr old =>
        obtain ⟨notFirst, notSecond, -⟩ := holds.elsewhere old
        exact Or.inl ⟨notFirst, notSecond, tree, List.mem_cons_of_mem _ (List.mem_cons_of_mem _ old), rfl⟩

theorem Forest.stands_merged {i : Nat} {tree : CodeTree UInt8}
    (member : (i, tree) ∈ (nodes.length, CodeTree.node left right) :: rest) :
    StandsFor (merged nodes first second lightest next) tree i := by
  have kept := kept_merged firstAt secondAt
  cases List.mem_cons.mp member with
  | inl new =>
      obtain ⟨rfl, rfl⟩ := Prod.mk.inj new
      refine ⟨parentOf first second lightest next, ?_, rfl, ?_, ?_⟩
      · rw [element?_ofNat]
        simp [merged]
      · exact (holds.stands first left List.mem_cons_self).kept kept
      · exact (holds.stands second right (List.mem_cons_of_mem _ List.mem_cons_self)).kept kept
  | inr old => exact (holds.stands i tree (List.mem_cons_of_mem _ (List.mem_cons_of_mem _ old))).kept kept

theorem Forest.merge :
    Forest freq (merged nodes first second lightest next) ((nodes.length, .node left right) :: rest) := by
  refine ⟨?_, holds.active_merged firstAt secondAt, fun i tree => holds.stands_merged firstAt secondAt⟩
  have distinct := holds.distinct
  simp only [List.map_cons, List.nodup_cons] at distinct
  refine List.nodup_cons.mpr ⟨?_, distinct.2.2⟩
  intro member
  obtain ⟨⟨i, tree⟩, inside, rfl⟩ := List.mem_map.mp member
  exact absurd (holds.elsewhere inside).2.2 (Nat.lt_irrefl _)

end

/-! ## The merging loop -/

/-- What the merging loop keeps, for the symbols of the string. -/
structure Growing (freq : UInt8 → Nat) (symbols : List UInt8) (nodes : List TempNode)
    (forest : List (Nat × CodeTree UInt8)) : Prop where
  holds : Forest freq nodes forest
  grown : CodeTree.GrownForest freq (forest.map Prod.snd)
  leaves : ((forest.map Prod.snd).flatMap CodeTree.leaves).Perm symbols
  size : nodes.length + forest.length = 2 * symbols.length
  last : ∃ tree, (nodes.length - 1, tree) ∈ forest

structure Merged (freq : UInt8 → Nat) (symbols : List UInt8) (nodes : List TempNode) (tree : CodeTree UInt8) :
    Prop where
  stands : StandsFor nodes tree (nodes.length - 1 : Nat)
  grown : tree.Grown freq
  leaves : tree.leaves.Perm symbols
  size : nodes.length + 1 = 2 * symbols.length

theorem exists_perm_cons_cons {α : Type*} {list : List α} {x y : α} (first : x ∈ list) (second : y ∈ list)
    (apart : x ≠ y) : ∃ rest, list.Perm (x :: y :: rest) := by
  obtain ⟨front, back, rfl⟩ := List.append_of_mem first
  have outer : (front ++ x :: back).Perm (x :: (front ++ back)) := List.perm_middle
  have inside : y ∈ front ++ back := by
    cases List.mem_cons.mp (outer.mem_iff.mp second) with
    | inl same => exact absurd same.symm apart
    | inr other => exact other
  obtain ⟨before, after, split⟩ := List.append_of_mem inside
  refine ⟨before ++ after, outer.trans (List.Perm.cons x ?_)⟩
  rw [split]
  exact List.perm_middle

theorem forest_singleton {freq : UInt8 → Nat} {nodes : List TempNode} {forest : List (Nat × CodeTree UInt8)}
    (holds : Forest freq nodes forest) {first last : Nat} {tree : CodeTree UInt8}
    (only : ∀ i weight, Active nodes i weight → i = first) (member : (last, tree) ∈ forest) :
    forest = [(last, tree)] := by
  have same : ∀ entry ∈ forest, entry.1 = first :=
    fun entry inside => only entry.1 _ ((holds.active _ _).mpr ⟨entry.2, inside, rfl⟩)
  cases forest with
  | nil => cases member
  | cons one rest =>
      cases rest with
      | nil => rw [List.mem_singleton.mp member]
      | cons two rest =>
          have distinct := holds.distinct
          have equal : one.1 = two.1 := (same one (by simp)).trans (same two (by simp)).symm
          simp [equal] at distinct

theorem merges_of_least {freq : UInt8 → Nat} {nodes : List TempNode} {forest rest : List (Nat × CodeTree UInt8)}
    {first second : Nat} {left right : CodeTree UInt8}
    (holds : Forest freq nodes ((first, left) :: (second, right) :: rest))
    (split : forest.Perm ((first, left) :: (second, right) :: rest)) (order : left.weight freq ≤ right.weight freq)
    (least : ∀ i < nodes.length, ∀ weight, Active nodes i weight → i = first ∨ i = second ∨ right.weight freq ≤ weight) :
    CodeTree.Merges freq (forest.map Prod.snd) (.node left right :: rest.map Prod.snd) left right
      (rest.map Prod.snd) := by
  refine ⟨split.map Prod.snd, ?_, List.Perm.refl _⟩
  intro tree member
  obtain ⟨⟨i, tree⟩, inside, rfl⟩ := List.mem_map.mp member
  obtain ⟨notFirst, notSecond, below⟩ := holds.elsewhere inside
  have running : Active nodes i (tree.weight freq) :=
    (holds.active i _).mpr ⟨tree, List.mem_cons_of_mem _ (List.mem_cons_of_mem _ inside), rfl⟩
  rcases least i below _ running with same | same | heavier
  · exact absurd same notFirst
  · exact absurd same notSecond
  · exact ⟨order.trans heavier, heavier⟩

theorem merge_two {freq : UInt8 → Nat} {symbols : List UInt8} {nodes : List TempNode}
    {forest : List (Nat × CodeTree UInt8)} (growing : Growing freq symbols nodes forest) {first second light next : Nat}
    (apart : first ≠ second) (active : Active nodes first light) (active' : Active nodes second next)
    (order : light ≤ next)
    (least : ∀ i < nodes.length, ∀ weight, Active nodes i weight → i = first ∨ i = second ∨ next ≤ weight)
    {lightest other : TempNode} (firstAt : nodes[first]? = some lightest) (secondAt : nodes[second]? = some other) :
    ∃ forest', Growing freq symbols (merged nodes first second lightest other) forest' ∧
      forest'.length + 1 = forest.length ∧
      ∀ budget, CodeTree.Within freq (forest.map Prod.snd) budget → CodeTree.Within freq (forest'.map Prod.snd) budget := by
  obtain ⟨left, isLeft, rfl⟩ := (growing.holds.active first light).mp active
  obtain ⟨right, isRight, rfl⟩ := (growing.holds.active second next).mp active'
  obtain ⟨rest, split⟩ := exists_perm_cons_cons isLeft isRight (fun same => apart (Prod.mk.inj same).1)
  have holds := growing.holds.perm split
  have merges := merges_of_least holds split order least
  have length := split.length_eq
  have size := growing.size
  simp only [List.length_cons] at length
  refine ⟨(nodes.length, .node left right) :: rest, ⟨holds.merge firstAt secondAt, ?_, ?_, ?_, ?_⟩, ?_,
    fun budget => merges.within⟩
  · exact merges.grown growing.grown
  · exact merges.leaves.trans growing.leaves
  · simp only [merged, List.length_append, List.length_set, List.length_cons, List.length_nil]
    omega
  · refine ⟨.node left right, ?_⟩
    simp [merged]
  · rw [List.length_cons]
    omega

def Budgeted (freq : UInt8 → Nat) (symbols : List UInt8) (forest : List (CodeTree UInt8)) : Prop :=
  ∀ budget, CodeTree.Within freq (symbols.map .leaf) budget → CodeTree.Within freq forest budget

theorem merge_advances {freq : UInt8 → Nat} {symbols : List UInt8} (few : symbols.length ≤ 128) (k : Nat)
    (nodes : List TempNode) (inv : ∃ forest, Growing freq symbols nodes forest ∧ forest.length = k ∧
      Budgeted freq symbols (forest.map Prod.snd)) :
    Loop.Advances merge
      (fun k nodes => ∃ forest, Growing freq symbols nodes forest ∧ forest.length = k ∧
        Budgeted freq symbols (forest.map Prod.snd))
      (fun nodes => ∃ tree, Merged freq symbols nodes tree ∧ Budgeted freq symbols [tree]) k nodes := by
  obtain ⟨forest, growing, rfl, budgeted⟩ := inv
  obtain ⟨tree, last⟩ := growing.last
  have running := (growing.holds.active _ _).mpr ⟨tree, last, rfl⟩
  obtain ⟨chosen, scanned, found⟩ := scan_chosen nodes
  unfold Loop.Advances merge
  rw [scanned]
  cases found with
  | nothing empty => exact absurd running (empty _ running.lt _)
  | one below active only =>
      have alone := forest_singleton growing.holds (fun i weight other => only i other.lt weight other) last
      subst alone
      refine Or.inr ⟨nodes, rfl, tree, ⟨growing.holds.stands _ _ last, ?_, ?_, growing.size⟩, budgeted⟩
      · exact growing.grown.grown tree (by simp)
      · simpa using growing.leaves
  | @two first second light next below below' apart active active' order least =>
      obtain ⟨lightest, firstAt, -, -⟩ := id active
      obtain ⟨other, secondAt, -, -⟩ := id active'
      obtain ⟨forest', growing', shorter, keeps⟩ :=
        merge_two growing apart active active' order least firstAt secondAt
      have size := growing.size
      have size' := growing'.size
      refine Or.inl ⟨merged nodes first second lightest other, forest'.length, ?_,
        ⟨forest', growing', rfl, fun budget within => keeps budget (budgeted budget within)⟩, by omega⟩
      have lower := active.lt
      have upper := active'.lt
      have narrow : ∀ idx < nodes.length, int16 idx = idx :=
        fun idx inside => int16_of_small (by omega) (by omega)
      simp only [Option.bind_eq_bind, Option.bind_some, firstAt, secondAt, narrow first lower, narrow second upper]
      rw [pushBack_of_room (by simp only [List.length_set]; omega)]
      rfl

theorem get_set_self (counts : Vector Nat 256) (i : Fin 256) (count : Nat) :
    (counts.set i count i.isLt).get i = count :=
  Vector.getElem_set_self i.isLt

theorem get_set_ne (counts : Vector Nat 256) {i j : Fin 256} (apart : i ≠ j) (count : Nat) :
    (counts.set i count i.isLt).get j = counts.get j :=
  Vector.getElem_set_ne i.isLt j.isLt (fun same => apart (Fin.ext same))

def place (c : UInt8) : Fin 256 := ⟨c.toNat, c.toNat_lt⟩

def code (i : Fin 256) : UInt8 := UInt8.ofNat i

theorem code_place (c : UInt8) : code (place c) = c := UInt8.ofNat_toNat

theorem place_code (i : Fin 256) : place (code i) = i :=
  Fin.ext (UInt8.toNat_ofNat_of_lt i.isLt)

theorem freqMap_get (input : List UInt8) (i : Fin 256) : (freqMap input).get i = input.count (code i) := by
  have added : ∀ (input : List UInt8) (counts : Vector Nat 256),
      (input.foldl (fun counts c => counts.set (place c) (counts.get (place c) + 1) (place c).isLt) counts).get i =
        counts.get i + input.count (code i) := by
    intro input
    induction input with
    | nil => intro counts; rfl
    | cons c input ih =>
        intro counts
        rw [List.foldl_cons, ih, List.count_cons]
        by_cases same : c = code i
        · subst same
          rw [place_code, get_set_self, if_pos (beq_self_eq_true _)]
          omega
        · have apart : place c ≠ i := fun equal => same (by rw [← equal, code_place])
          rw [get_set_ne _ apart, if_neg (by simpa using same), Nat.add_zero]
  have start : (Vector.replicate 256 0).get i = 0 := Vector.getElem_replicate i.isLt
  have total := added input (Vector.replicate 256 0)
  rw [start, Nat.zero_add] at total
  exact total

def symbols (input : List UInt8) : List UInt8 :=
  ((List.finRange 256).map code).filter fun c => 0 < input.count c

theorem mem_symbols {input : List UInt8} {c : UInt8} : c ∈ symbols input ↔ c ∈ input := by
  have every : c ∈ (List.finRange 256).map code := List.mem_map.mpr ⟨place c, List.mem_finRange _, code_place c⟩
  rw [symbols, List.mem_filter, decide_eq_true_eq, List.count_pos_iff]
  exact ⟨And.right, And.intro every⟩

theorem symbols_nodup (input : List UInt8) : (symbols input).Nodup := by
  apply List.Nodup.filter
  refine List.Nodup.map_on ?_ (List.nodup_finRange 256)
  intro i _ j _ same
  rw [← place_code i, same, place_code]

theorem symbols_perm_dedup (input : List UInt8) : (symbols input).Perm input.dedup := by
  rw [List.perm_ext_iff_of_nodup (symbols_nodup input) (List.nodup_dedup input)]
  intro c
  rw [mem_symbols, List.mem_dedup]

theorem symbols_length (input : List UInt8) : (symbols input).length = input.dedup.length :=
  (symbols_perm_dedup input).length_eq

def leafOf (input : List UInt8) (c : UInt8) : TempNode := { ch := c, freq := input.count c }

def leavesOf (input : List UInt8) (past : List (Fin 256)) : List TempNode :=
  ((past.map code).filter fun c => 0 < input.count c).map (leafOf input)

theorem leavesOf_length_le (input : List UInt8) (past : List (Fin 256)) :
    (leavesOf input past).length ≤ past.length := by
  rw [leavesOf, List.length_map]
  exact (List.length_filter_le _ _).trans (Nat.le_of_eq (List.length_map code))

theorem leavesOf_append (input : List UInt8) (past : List (Fin 256)) (i : Fin 256) :
    leavesOf input (past ++ [i]) =
      leavesOf input past ++ if 0 < input.count (code i) then [leafOf input (code i)] else [] := by
  simp only [leavesOf, List.map_append, List.filter_append, List.map_cons, List.map_nil, List.filter_cons,
    List.filter_nil, decide_eq_true_eq]
  split_ifs <;> rfl

theorem pushLeaf_spec (input : List UInt8) {past : List (Fin 256)} (room : past.length < 256) (i : Fin 256) :
    pushLeaf (freqMap input) (leavesOf input past) i = some (leavesOf input (past ++ [i])) := by
  have inside : (leavesOf input past).length < 256 := Nat.lt_of_le_of_lt (leavesOf_length_le input past) room
  rw [pushLeaf, freqMap_get, leavesOf_append]
  split_ifs
  · exact pushBack_of_room inside _
  · rw [List.append_nil]

theorem pushLeaves (input : List UInt8) :
    (List.finRange 256).foldlM (pushLeaf (freqMap input)) [] = some ((symbols input).map (leafOf input)) := by
  have step : ∀ past i rest nodes, List.finRange 256 = past ++ i :: rest → nodes = leavesOf input past →
      ∃ next, pushLeaf (freqMap input) nodes i = some next ∧ next = leavesOf input (past ++ [i]) := by
    rintro past i rest nodes split rfl
    have length := congrArg List.length split
    simp only [List.length_finRange, List.length_append, List.length_cons] at length
    exact ⟨_, pushLeaf_spec input (by omega) i, rfl⟩
  obtain ⟨last, finished, rfl⟩ := Loop.foldlM_total step rfl
  exact finished

def seedlings (symbols : List UInt8) : List (Nat × CodeTree UInt8) :=
  symbols.zipIdx.map fun entry => (entry.2, .leaf entry.1)

theorem mem_seedlings {symbols : List UInt8} {i : Nat} {tree : CodeTree UInt8} :
    (i, tree) ∈ seedlings symbols ↔ ∃ c, symbols[i]? = some c ∧ tree = .leaf c := by
  simp only [seedlings, List.mem_map, List.mem_zipIdx_iff_getElem?, Prod.mk.injEq, Prod.exists]
  constructor
  · rintro ⟨c, j, found, rfl, rfl⟩
    exact ⟨c, found, rfl⟩
  · rintro ⟨c, found, rfl⟩
    exact ⟨c, i, found, rfl, rfl⟩

theorem seedlings_places (symbols : List UInt8) : (seedlings symbols).map Prod.fst = List.range' 0 symbols.length := by
  rw [seedlings, List.map_map]
  exact List.zipIdx_map_snd 0 symbols

theorem seedlings_trees (symbols : List UInt8) : (seedlings symbols).map Prod.snd = symbols.map .leaf := by
  conv_rhs => rw [← List.zipIdx_map_fst 0 symbols]
  rw [seedlings, List.map_map, List.map_map]
  rfl

theorem forest_leaves {input : List UInt8} (noNul : 0 ∉ input) :
    Forest (fun c => input.count c) ((symbols input).map (leafOf input)) (seedlings (symbols input)) where
  distinct := by
    rw [seedlings_places]
    exact List.nodup_range'
  active i weight := by
    simp only [Active, mem_seedlings, List.getElem?_map, Option.map_eq_some_iff]
    constructor
    · rintro ⟨n, ⟨c, found, rfl⟩, -, rfl⟩
      exact ⟨.leaf c, ⟨c, found, rfl⟩, rfl⟩
    · rintro ⟨tree, ⟨c, found, rfl⟩, rfl⟩
      exact ⟨leafOf input c, ⟨c, found, rfl⟩, rfl, rfl⟩
  stands i tree member := by
    obtain ⟨c, found, rfl⟩ := mem_seedlings.mp member
    have present : c ∈ input := mem_symbols.mp (List.mem_of_getElem? found)
    refine ⟨leafOf input c, ?_, rfl, fun nul => noNul (nul ▸ present)⟩
    rw [element?_ofNat, List.getElem?_map, found]
    rfl

theorem grownForest_leaves (freq : UInt8 → Nat) (symbols : List UInt8) :
    CodeTree.GrownForest freq (symbols.map .leaf) := by
  refine ⟨?_, ?_⟩
  · intro tree member
    obtain ⟨c, -, rfl⟩ := List.mem_map.mp member
    trivial
  · rw [List.pairwise_map]
    refine List.pairwise_of_forall fun c c' => ⟨?_, ?_⟩
    · intro child member
      cases member
    · intro child member
      cases member

theorem growing_leaves {input : List UInt8} (noNul : 0 ∉ input) (nonempty : input ≠ []) :
    Growing (fun c => input.count c) (symbols input) ((symbols input).map (leafOf input))
      (seedlings (symbols input)) := by
  obtain ⟨c, member⟩ := List.exists_mem_of_ne_nil input nonempty
  have some : 0 < (symbols input).length := List.length_pos_of_mem (mem_symbols.mpr member)
  refine ⟨forest_leaves noNul, ?_, ?_, ?_, ?_⟩
  · rw [seedlings_trees]
    exact grownForest_leaves _ _
  · rw [seedlings_trees, List.flatMap_map]
    simp [CodeTree.leaves]
  · simp only [seedlings, List.length_map, List.length_zipIdx]
    omega
  · rw [List.length_map]
    exact ⟨_, mem_seedlings.mpr ⟨_, List.getElem?_eq_getElem (by omega), rfl⟩⟩

theorem merge_total {input : List UInt8} (noNul : 0 ∉ input) (nonempty : input ≠ [])
    (few : input.dedup.length ≤ 128) :
    ∃ nodes, Loop.run merge 257 ((symbols input).map (leafOf input)) = some nodes ∧
      ∃ tree, Merged (fun c => input.count c) (symbols input) nodes tree ∧
        Budgeted (fun c => input.count c) (symbols input) [tree] := by
  rw [← symbols_length] at few
  have growing := growing_leaves noNul nonempty
  have length : (seedlings (symbols input)).length = (symbols input).length := by simp [seedlings]
  have start : Budgeted (fun c => input.count c) (symbols input) ((seedlings (symbols input)).map Prod.snd) := by
    rw [seedlings_trees]
    exact fun budget => id
  exact Loop.run_total (merge_advances few) 257 _ _ ⟨_, growing, rfl, start⟩ (by omega)

end KnowledgeAcquisition.Proof.Compress
