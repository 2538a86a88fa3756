import KnowledgeAcquisition.Proof.Compress.HuffmanCodec

/-!
# The paths of a string

The flat tree is an image of the merge tree: its paths are as long as the leaves are deep, no path is the start of
another one, and a path of a string that fits into the buffer fits into 32 bits.
-/

namespace KnowledgeAcquisition.Proof.Compress
open KnowledgeAcquisition.Compress Library

def arrive (child : Int) (turns : List Bool) (further : Option UInt8) : Option UInt8 :=
  if child ≤ 0 then if turns = [] then some (UInt8.ofInt (-child)) else none else further

def walk (entries : List FlatNode) : Int → List Bool → Option UInt8
  | _, [] => none
  | idx, bit :: turns => do
      let fn ← element? entries idx
      let child := if bit then fn.right else fn.left
      arrive child turns (walk entries child turns)

theorem walk_cons {entries : List FlatNode} {idx : Int} {fn : FlatNode} (found : element? entries idx = some fn)
    (bit : Bool) (turns : List Bool) :
    walk entries idx (bit :: turns) =
      arrive (if bit then fn.right else fn.left) turns (walk entries (if bit then fn.right else fn.left) turns) := by
  rw [walk, found]
  rfl

theorem walk_append {entries : List FlatNode} {idx : Int} {turns more : List Bool} {c c' : UInt8}
    (arrives : walk entries idx turns = some c) (further : walk entries idx (turns ++ more) = some c') : more = [] := by
  induction turns generalizing idx with
  | nil => cases arrives
  | cons bit turns ih =>
      cases found : element? entries idx with
      | none =>
          rw [walk, found] at arrives
          cases arrives
      | some fn =>
          rw [walk_cons found, arrive] at arrives
          rw [List.cons_append, walk_cons found, arrive] at further
          generalize (if bit then fn.right else fn.left) = child at arrives further
          split_ifs at arrives further with leaf last last'
          · exact (List.append_eq_nil_iff.mp last').2
          · exact ih arrives further

theorem walk_entry {entries : List FlatNode} {left right : CodeTree UInt8} {idx : Int} {fn : FlatNode}
    (found : element? entries idx = some fn) {c : UInt8}
    (onLeft : ∀ {turns}, left.path c = some turns → arrive fn.left turns (walk entries fn.left turns) = some c)
    (onRight : ∀ {turns}, right.path c = some turns → arrive fn.right turns (walk entries fn.right turns) = some c)
    {turns : List Bool} (path : (CodeTree.node left right).path c = some turns) :
    walk entries idx turns = some c := by
  rcases CodeTree.path_node_cases path with ⟨rest, inLeft, rfl⟩ | ⟨rest, -, inRight, rfl⟩
  · rw [walk_cons found]
    exact onLeft inLeft
  · rw [walk_cons found]
    exact onRight inRight

theorem walk_leadsTo {entries : List FlatNode} {tree : CodeTree UInt8} {child : Int}
    (leads : LeadsTo entries tree child) {c : UInt8} {turns : List Bool} (path : tree.path c = some turns) :
    arrive child turns (walk entries child turns) = some c := by
  induction tree generalizing child turns with
  | leaf symbol =>
      obtain rfl : child = -(symbol.toNat : Int) := leads
      obtain ⟨same, rfl⟩ := CodeTree.path_leaf_cases path
      rw [arrive, if_pos (by omega), if_pos rfl, Int.neg_neg, ofInt_toNat, same]
  | node left right leftIh rightIh =>
      obtain ⟨positive, fn, found, onLeft, onRight⟩ := leads
      rw [arrive, if_neg (Int.not_le.mpr positive)]
      exact walk_entry found (leftIh onLeft) (rightIh onRight) path

theorem walk_rooted {entries : List FlatNode} {left right : CodeTree UInt8} (rooted : RootedAt entries left right)
    {c : UInt8} {turns : List Bool} (path : (CodeTree.node left right).path c = some turns) :
    walk entries 0 turns = some c := by
  obtain ⟨fn, found, onLeft, onRight⟩ := rooted
  exact walk_entry found (walk_leadsTo onLeft) (walk_leadsTo onRight) path

inductive DepthIn (nodes : List TempNode) (target : UInt8) : Int → Nat → Prop where
  | leaf {idx : Int} {n : TempNode} (found : element? nodes idx = some n) (own : n.ch = target) (isLeaf : target ≠ 0) :
      DepthIn nodes target idx 0
  | left {idx : Int} {n : TempNode} {depth : Nat} (found : element? nodes idx = some n) (isInner : n.ch = 0)
      (below : DepthIn nodes target n.leftChild depth) : DepthIn nodes target idx (depth + 1)
  | right {idx : Int} {n : TempNode} {depth : Nat} (found : element? nodes idx = some n) (isInner : n.ch = 0)
      (below : DepthIn nodes target n.rightChild depth) : DepthIn nodes target idx (depth + 1)

section

variable {nodes : List TempNode} {target : UInt8}

theorem depthIn_node_iff {idx : Int} {n : TempNode} (found : element? nodes idx = some n) (isInner : n.ch = 0)
    (depth : Nat) :
    DepthIn nodes target idx depth ↔ ∃ below, depth = below + 1 ∧
      (DepthIn nodes target n.leftChild below ∨ DepthIn nodes target n.rightChild below) := by
  constructor
  · intro deep
    cases deep with
    | leaf found' own isLeaf =>
        cases found.symm.trans found'
        exact absurd (own.symm.trans isInner) isLeaf
    | left found' _ below =>
        cases found.symm.trans found'
        exact ⟨_, rfl, Or.inl below⟩
    | right found' _ below =>
        cases found.symm.trans found'
        exact ⟨_, rfl, Or.inr below⟩
  · rintro ⟨below, rfl, left | right⟩
    · exact .left found isInner left
    · exact .right found isInner right

theorem depthIn_leaf_iff {idx : Int} {n : TempNode} (found : element? nodes idx = some n) (isLeaf : n.ch ≠ 0)
    (depth : Nat) : DepthIn nodes target idx depth ↔ n.ch = target ∧ depth = 0 := by
  constructor
  · intro deep
    cases deep with
    | leaf found' own _ =>
        cases found.symm.trans found'
        exact ⟨own, rfl⟩
    | left found' isInner _ =>
        cases found.symm.trans found'
        exact absurd isInner isLeaf
    | right found' isInner _ =>
        cases found.symm.trans found'
        exact absurd isInner isLeaf
  · rintro ⟨rfl, rfl⟩
    exact .leaf found rfl isLeaf

theorem mem_leaves_of_depthIn {tree : CodeTree UInt8} {idx : Int} (stands : StandsFor nodes tree idx) {depth : Nat}
    (deep : DepthIn nodes target idx depth) : target ∈ tree.leaves := by
  induction tree generalizing idx depth with
  | leaf symbol =>
      obtain ⟨n, found, rfl, isLeaf⟩ := stands
      obtain ⟨own, -⟩ := (depthIn_leaf_iff found isLeaf depth).mp deep
      exact own ▸ List.mem_singleton_self _
  | node left right leftIh rightIh =>
      obtain ⟨n, found, isInner, onLeft, onRight⟩ := stands
      obtain ⟨below, -, inLeft | inRight⟩ := (depthIn_node_iff found isInner depth).mp deep
      · exact List.mem_append_left _ (leftIh onLeft inLeft)
      · exact List.mem_append_right _ (rightIh onRight inRight)

theorem depthIn_iff {tree : CodeTree UInt8} {idx : Int} (stands : StandsFor nodes tree idx) (nodup : tree.leaves.Nodup)
    {turns : List Bool} (path : tree.path target = some turns) (depth : Nat) :
    DepthIn nodes target idx depth ↔ depth = turns.length := by
  induction tree generalizing idx turns depth with
  | leaf symbol =>
      obtain ⟨n, found, rfl, isLeaf⟩ := stands
      obtain ⟨same, rfl⟩ := CodeTree.path_leaf_cases path
      rw [depthIn_leaf_iff found isLeaf, and_iff_right same, List.length_nil]
  | node left right leftIh rightIh =>
      obtain ⟨n, found, isInner, onLeft, onRight⟩ := stands
      obtain ⟨leftNodup, rightNodup, apart⟩ := List.nodup_append.mp nodup
      rw [depthIn_node_iff found isInner]
      -- The leaves are distinct, so the target is below one of the two children only.
      rcases CodeTree.path_node_cases path with ⟨rest, inLeft, rfl⟩ | ⟨rest, outside, inRight, rfl⟩
      · have member := CodeTree.mem_leaves_of_path inLeft
        have notRight (below : Nat) : ¬DepthIn nodes target n.rightChild below := fun deep =>
          apart target member target (mem_leaves_of_depthIn onRight deep) rfl
        simp only [leftIh onLeft leftNodup inLeft, notRight, or_false, exists_eq_right, List.length_cons]
      · have notLeft (below : Nat) : ¬DepthIn nodes target n.leftChild below := by
          intro deep
          obtain ⟨turns, known⟩ := CodeTree.exists_path (mem_leaves_of_depthIn onLeft deep)
          cases outside.symm.trans known
        simp only [rightIh onRight rightNodup inRight, notLeft, false_or, exists_eq_right, List.length_cons]

end

/-! ## The image of the merge tree -/

/-- The flat tree is a faithful image of the merge tree, whose root is the last node. -/
structure Faithful (input : List UInt8) (nodes : List TempNode) (entries : List FlatNode) : Prop where
  size : entries.length + 1 = input.dedup.length
  numbered : innerChildren entries = placesFrom 1 (entries.length - 1)
  found : ∀ c ∈ input, ∃ turns, walk (treeArray entries) 0 turns = some c ∧
    pathOf (treeArray entries) c = some { bits := turns.foldl shiftIn 0, len := turns.length } ∧ 1 ≤ turns.length ∧
    ∀ depth, DepthIn nodes c (nodes.length - 1 : Nat) depth ↔ depth = turns.length
  absent : ∀ c, c ∉ input → pathOf (treeArray entries) c = some {}
  prefixFree : ∀ c c', c ≠ c' → ∀ turns turns', walk (treeArray entries) 0 turns = some c →
    walk (treeArray entries) 0 turns' = some c' → ¬turns <+: turns'

theorem Flattened.faithful {input : List UInt8} {nodes : List TempNode} {entries : List FlatNode}
    {left right : CodeTree UInt8} (flattened : Flattened input nodes entries left right)
    (few : input.dedup.length ≤ 128) : Faithful input nodes entries := by
  have size := flattened.size
  have low := flattened.height_le
  have nodup := flattened.perm_dedup.nodup_iff.mpr input.nodup_dedup
  have image := pathOf_rooted flattened.rooted (Nat.le_trans low (by omega))
  refine ⟨size, flattened.numbered, ?_, ?_, ?_⟩
  · intro c member
    obtain ⟨turns, path⟩ := CodeTree.exists_path (flattened.mem_leaves.mpr member)
    refine ⟨turns, walk_rooted flattened.rooted path, ?_, codeOf_node_pos path,
      depthIn_iff flattened.stands nodup path⟩
    rw [image, path, pathFrom, Nat.zero_add]
  · intro c missing
    rw [image]
    cases path : (CodeTree.node left right).path c with
    | none => rfl
    | some turns => exact absurd (flattened.mem_leaves.mp (CodeTree.mem_leaves_of_path path)) missing
  · rintro c c' apart turns _ arrives further ⟨more, rfl⟩
    rw [walk_append arrives further, List.append_nil, arrives] at further
    exact apart (Option.some.inj further)

theorem pathOf_empty {c : UInt8} (notNul : c ≠ 0) : pathOf (treeArray []) c = some {} := by
  have root : element? (treeArray []) 0 = some {} := rfl
  have other : ¬UInt8.ofInt (-0) = c := Ne.symm notNul
  have nothing (further : Int → UInt32 → Nat → Option BitPath) (bits : UInt32) (depth : Nat) :
      findChild further c 0 bits depth = some {} := by
    rw [findChild, if_pos (Int.le_refl 0), if_neg other]
  rw [pathOf, findPath, root]
  simp only [Option.bind_eq_bind, Option.bind_some, nothing, Nat.lt_irrefl, if_false]

theorem flatTree_faithful_iff {input : List UInt8} (nonempty : input ≠ []) (noNul : 0 ∉ input)
    (few : input.dedup.length ≤ 128) :
    (∃ nodes entries, tempNodes input = some nodes ∧ flatTree input = some entries ∧ Faithful input nodes entries) ↔
      2 ≤ input.dedup.length := by
  constructor
  · rintro ⟨nodes, entries, -, -, faithful⟩
    obtain ⟨c, member⟩ := List.exists_mem_of_ne_nil input nonempty
    obtain ⟨turns, -, path, positive, -⟩ := faithful.found c member
    have size := faithful.size
    by_contra single
    have none : entries = [] := List.eq_nil_of_length_eq_zero (by omega)
    rw [none, pathOf_empty fun nul => noNul (nul ▸ member)] at path
    have long : 0 = turns.length := congrArg BitPath.len (Option.some.inj path)
    omega
  · intro two
    obtain ⟨nodes, entries, left, right, flattened⟩ := flatTree_total noNul two few
    exact ⟨nodes, entries, flattened.merged, flattened.built, flattened.faithful few⟩

theorem flatTree_faithful_abracadabra :
    let input : List UInt8 := [97, 98, 114, 97, 99, 97, 100, 97, 98, 114, 97]
    ∃ nodes entries, tempNodes input = some nodes ∧ flatTree input = some entries ∧ Faithful input nodes entries :=
  (flatTree_faithful_iff (by decide) (by decide) (by decide)).mpr (by decide)

/-- A string of one character has no inner node, and its character is not found. -/
theorem flatTree_unfaithful_single :
    ¬∀ input : List UInt8, input ≠ [] → 0 ∉ input → input.dedup.length ≤ 128 →
      ∃ nodes entries, tempNodes input = some nodes ∧ flatTree input = some entries ∧ Faithful input nodes entries := by
  intro claim
  obtain ⟨nodes, entries, -, -, faithful⟩ := claim [97] (by decide) (by decide) (by decide)
  obtain ⟨turns, -, path, positive, -⟩ := faithful.found 97 (by decide)
  have none : entries = [] := List.eq_nil_of_length_eq_zero (Nat.succ.inj faithful.size)
  rw [none, pathOf_empty (by decide)] at path
  have long : 0 = turns.length := congrArg BitPath.len (Option.some.inj path)
  omega

theorem pathOf_fits {input : List UInt8} (noNul : 0 ∉ input) (two : 2 ≤ input.dedup.length)
    (few : input.dedup.length ≤ 128) (fits : ∀ bits ∈ encodedBits input, bits ≤ 65000 * 8) :
    ∃ entries, flatTree input = some entries ∧ ∀ c ∈ input, ∃ path turns,
      pathOf (treeArray entries) c = some path ∧ walk (treeArray entries) 0 turns = some c ∧
      path.len = turns.length ∧ path.len ≤ 32 ∧ path.bits.toNat = ofBits turns ∧
      ∀ (b : Nat) (inside : b < turns.length), path.len - 1 - b < 32 ∧ path.bit b = some turns[b] := by
  obtain ⟨nodes, entries, left, right, flattened⟩ := flatTree_total noNul two few
  refine ⟨entries, flattened.built, fun c member => ?_⟩
  obtain ⟨turns, path⟩ := CodeTree.exists_path (flattened.mem_leaves.mpr member)
  have low := flattened.height_le_of_fits few fits
  have short : turns.length ≤ 32 := (CodeTree.path_length_le path).trans low
  have length : (pathFrom 0 0 (some turns)).len = turns.length := Nat.zero_add _
  refine ⟨pathFrom 0 0 (some turns), turns, ?_, walk_rooted flattened.rooted path, length, length.trans_le short,
    foldl_shiftIn_toNat short, fun b inside => ⟨by omega, pathFrom_bit short inside⟩⟩
  rw [pathOf_rooted flattened.rooted (by omega), path]

theorem pathOf_fits_abracadabra :
    let input : List UInt8 := [97, 98, 114, 97, 99, 97, 100, 97, 98, 114, 97]
    ∃ entries, flatTree input = some entries ∧ ∀ c ∈ input, ∃ path turns,
      pathOf (treeArray entries) c = some path ∧ walk (treeArray entries) 0 turns = some c ∧
      path.len = turns.length ∧ path.len ≤ 32 ∧ path.bits.toNat = ofBits turns ∧
      ∀ (b : Nat) (inside : b < turns.length), path.len - 1 - b < 32 ∧ path.bit b = some turns[b] :=
  pathOf_fits (by decide) (by decide) (by decide) abracadabra_fits

end KnowledgeAcquisition.Proof.Compress
