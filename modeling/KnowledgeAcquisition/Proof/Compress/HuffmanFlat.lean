import KnowledgeAcquisition.Proof.Compress.HuffmanTree

/-!
# The flat tree

The queue of the renumbering holds the inner nodes of the tree in the order of their places, so that every entry
of the flat tree leads to the leaves and the entries of its children.
-/

namespace KnowledgeAcquisition.Proof.Compress
open KnowledgeAcquisition.Compress Library

/-- The value for a tree, where an inner node has its place among `trees`. -/
def Links (trees : List (CodeTree UInt8)) : CodeTree UInt8 → Int → Prop
  | .leaf symbol, child => child = -(symbol.toNat : Int)
  | .node left right, child => ∃ place : Nat, 0 < place ∧ child = place ∧ trees[place]? = some (.node left right)

theorem Links.append {trees : List (CodeTree UInt8)} {tree : CodeTree UInt8} {child : Int}
    (links : Links trees tree child) (more : List (CodeTree UInt8)) : Links (trees ++ more) tree child := by
  cases tree with
  | leaf symbol => exact links
  | node left right =>
      obtain ⟨place, positive, rfl, found⟩ := links
      have inside := (List.getElem?_eq_some_iff.mp found).1
      exact ⟨place, positive, rfl, (List.getElem?_append_left inside).trans found⟩

def queuedFor : CodeTree UInt8 → List (CodeTree UInt8)
  | .leaf _ => []
  | .node left right => [.node left right]

theorem queuedFor_inner (tree : CodeTree UInt8) : ((queuedFor tree).map CodeTree.inner).sum = tree.inner := by
  cases tree with
  | leaf symbol => rfl
  | node left right => simp [queuedFor]

theorem queuedFor_length_le (tree : CodeTree UInt8) : (queuedFor tree).length ≤ 1 := by
  cases tree with
  | leaf symbol => exact Nat.zero_le 1
  | node left right => exact Nat.le_refl 1

def innerChildren (entries : List FlatNode) : List Int :=
  (entries.flatMap fun fn => [fn.left, fn.right]).filter (0 < ·)

def placesFrom (first count : Nat) : List Int := (List.range' first count).map Int.ofNat

theorem placesFrom_append (first count more : Nat) :
    placesFrom first count ++ placesFrom (first + count) more = placesFrom first (count + more) := by
  rw [placesFrom, placesFrom, placesFrom, ← List.map_append, List.range'_append_1]

theorem innerChildren_append (entries more : List FlatNode) :
    innerChildren (entries ++ more) = innerChildren entries ++ innerChildren more := by
  rw [innerChildren, innerChildren, innerChildren, List.flatMap_append, List.filter_append]

structure Queued (nodes : List TempNode) (trees : List (CodeTree UInt8)) (s : Flattening) : Prop where
  stands : List.Forall₂ (StandsFor nodes) trees s.queue
  places : s.flatIdx + 1 = s.queue.length
  inner : ∀ tree ∈ trees, 0 < tree.inner

theorem flattenChild_spec {nodes : List TempNode} {trees : List (CodeTree UInt8)} {s : Flattening}
    (queued : Queued nodes trees s) (room : s.queue.length < 256) {tree : CodeTree UInt8} {child : Int}
    (stands : StandsFor nodes tree child) :
    ∃ link queue flatIdx, flattenChild nodes s child = some (link, { s with queue, flatIdx }) ∧
      Queued nodes (trees ++ queuedFor tree) { s with queue, flatIdx } ∧
      Links (trees ++ queuedFor tree) tree link ∧
      [link].filter (0 < ·) = placesFrom trees.length (queuedFor tree).length := by
  have length := queued.stands.length_eq
  have places := queued.places
  unfold flattenChild
  cases tree with
  | leaf symbol =>
      obtain ⟨n, found, rfl, own⟩ := stands
      have small := n.ch.toNat_lt
      refine ⟨-(n.ch.toNat : Int), s.queue, s.flatIdx, ?_, ?_, rfl, ?_⟩
      · have narrow : int16 n.ch.toNat = n.ch.toNat := int16_of_small (by omega) (by omega)
        have negated : int16 (-(n.ch.toNat : Int)) = -(n.ch.toNat : Int) := int16_of_small (by omega) (by omega)
        simp [found, own, narrow, negated]
      · rw [queuedFor, List.append_nil]
        exact queued
      · exact List.filter_cons_of_neg (by simp)
  | node left right =>
      have stands' := stands
      obtain ⟨n, found, ch, -, -⟩ := stands
      refine ⟨s.flatIdx + 1, s.queue ++ [child], s.flatIdx + 1, ?_, ⟨?_, ?_, ?_⟩, ?_, ?_⟩
      · have narrow : int16 (s.flatIdx + 1) = s.flatIdx + 1 := int16_of_small (by omega) (by omega)
        simp [found, ch, pushBack_of_room room, narrow]
      · exact List.rel_append queued.stands (List.Forall₂.cons stands' List.Forall₂.nil)
      · rw [List.length_append, List.length_singleton, places]
      · intro tree member
        cases List.mem_append.mp member with
        | inl old => exact queued.inner tree old
        | inr new =>
            rw [List.mem_singleton.mp new, CodeTree.inner]
            exact Nat.succ_pos _
      · refine ⟨s.flatIdx + 1, Nat.succ_pos _, rfl, ?_⟩
        rw [places, ← length, List.getElem?_append_right (Nat.le_refl _), Nat.sub_self]
        rfl
      · rw [length, ← places]
        exact List.filter_cons_of_pos (by simp only [decide_eq_true_eq]; omega)

theorem flattenNode_spec {nodes : List TempNode} {trees : List (CodeTree UInt8)} {s : Flattening}
    (queued : Queued nodes trees s) (room : s.queue.length + 1 < 256) (entries : s.tree.length < 128)
    {left right : CodeTree UInt8} {n : TempNode} (onLeft : StandsFor nodes left n.leftChild)
    (onRight : StandsFor nodes right n.rightChild) :
    ∃ next fn, flattenNode nodes s n = some { next with tree := s.tree ++ [fn] } ∧
      Queued nodes (trees ++ queuedFor left ++ queuedFor right) next ∧
      Links (trees ++ queuedFor left ++ queuedFor right) left fn.left ∧
      Links (trees ++ queuedFor left ++ queuedFor right) right fn.right ∧
      innerChildren [fn] = placesFrom trees.length (queuedFor left ++ queuedFor right).length := by
  have length := queued.stands.length_eq
  have most := queuedFor_length_le left
  obtain ⟨leftLink, queue, flatIdx, leftDone, leftQueued, leftLinks, leftPlaces⟩ :=
    flattenChild_spec queued (by omega) onLeft
  have length' := leftQueued.stands.length_eq
  rw [List.length_append] at length'
  obtain ⟨rightLink, queue', flatIdx', rightDone, rightQueued, rightLinks, rightPlaces⟩ :=
    flattenChild_spec leftQueued (by omega) onRight
  refine ⟨_, { left := leftLink, right := rightLink }, ?_, rightQueued, leftLinks.append _, rightLinks, ?_⟩
  · simp only [flattenNode, Option.bind_eq_bind, leftDone, Option.bind_some, rightDone, pushBack_of_room entries]
  · rw [List.length_append] at rightPlaces
    rw [List.length_append, ← placesFrom_append, ← leftPlaces, ← rightPlaces, ← List.filter_append]
    rfl

structure Renumbering (nodes : List TempNode) (root : CodeTree UInt8) (trees : List (CodeTree UInt8)) (s : Flattening) :
    Prop where
  queued : Queued nodes trees s
  start : trees[0]? = some root
  filled : s.tree.length = s.q
  within : s.q ≤ trees.length
  links : ∀ (place : Nat) (fn : FlatNode), s.tree[place]? = some fn → ∃ left right,
    trees[place]? = some (.node left right) ∧ Links trees left fn.left ∧ Links trees right fn.right
  -- The inner nodes below those that are still to come.
  budget : s.q + ((trees.drop s.q).map CodeTree.inner).sum = root.inner

theorem length_le_sum_inner {trees : List (CodeTree UInt8)} (inner : ∀ tree ∈ trees, 0 < tree.inner) :
    trees.length ≤ (trees.map CodeTree.inner).sum := by
  induction trees with
  | nil => exact Nat.le_refl 0
  | cons tree trees ih =>
      have first := inner tree (by simp)
      have rest := ih fun tree member => inner tree (by simp [member])
      rw [List.length_cons, List.map_cons, List.sum_cons]
      omega

theorem Renumbering.length_le {nodes : List TempNode} {root : CodeTree UInt8} {trees : List (CodeTree UInt8)}
    {s : Flattening} (renumbering : Renumbering nodes root trees s) : trees.length ≤ root.inner := by
  have inner : ∀ tree ∈ trees.drop s.q, 0 < tree.inner :=
    fun tree member => renumbering.queued.inner tree (List.mem_of_mem_drop member)
  have rest := length_le_sum_inner inner
  have budget := renumbering.budget
  rw [List.length_drop] at rest
  omega

def LaidOut (root : CodeTree UInt8) (entries : List FlatNode) : Prop :=
  ∃ trees : List (CodeTree UInt8), trees[0]? = some root ∧ entries.length = trees.length ∧
    ∀ (place : Nat) (fn : FlatNode), entries[place]? = some fn → ∃ left right,
      trees[place]? = some (.node left right) ∧ Links trees left fn.left ∧ Links trees right fn.right

theorem Renumbering.turn {nodes : List TempNode} {root : CodeTree UInt8} {trees more : List (CodeTree UInt8)}
    {s next : Flattening} {left right : CodeTree UInt8} {fn : FlatNode} (renumbering : Renumbering nodes root trees s)
    (here : trees[s.q]? = some (.node left right)) (queued : Queued nodes (trees ++ more) next)
    (added : (more.map CodeTree.inner).sum = left.inner + right.inner)
    (onLeft : Links (trees ++ more) left fn.left) (onRight : Links (trees ++ more) right fn.right) :
    Renumbering nodes root (trees ++ more) { next with tree := s.tree ++ [fn], q := s.q + 1 } := by
  have inside := (List.getElem?_eq_some_iff.mp here).1
  have filled := renumbering.filled
  refine ⟨⟨queued.stands, queued.places, queued.inner⟩, ?_, ?_, ?_, ?_, ?_⟩
  · exact (List.getElem?_append_left (by omega)).trans renumbering.start
  · rw [List.length_append, filled]
    rfl
  · rw [List.length_append]
    exact Nat.le_add_right_of_le inside
  · intro place fn' found
    by_cases old : place < s.tree.length
    · rw [List.getElem?_append_left old] at found
      obtain ⟨left, right, known, onLeft, onRight⟩ := renumbering.links place fn' found
      exact ⟨left, right, (List.getElem?_append_left (by omega)).trans known, onLeft.append _, onRight.append _⟩
    · have new : place = s.tree.length := by
        have bound := (List.getElem?_eq_some_iff.mp found).1
        simp only [List.length_append, List.length_singleton] at bound
        omega
      subst new
      rw [List.getElem?_append_right (Nat.le_refl _), Nat.sub_self] at found
      obtain rfl := Option.some.inj found
      exact ⟨left, right, (List.getElem?_append_left (by omega)).trans (filled ▸ here), onLeft, onRight⟩
  · have budget := renumbering.budget
    rw [List.drop_eq_getElem_cons inside, (List.getElem?_eq_some_iff.mp here).2] at budget
    simp only [List.map_cons, List.sum_cons, CodeTree.inner] at budget
    simp only [List.drop_append_of_le_length (show s.q + 1 ≤ trees.length from inside), List.map_append,
      List.sum_append, added]
    omega

def Numbered (entries : List FlatNode) (trees : List (CodeTree UInt8)) : Prop :=
  innerChildren entries = placesFrom 1 (trees.length - 1)

theorem Numbered.turn {entries : List FlatNode} {trees more : List (CodeTree UInt8)} (numbered : Numbered entries trees)
    (nonempty : 0 < trees.length) {fn : FlatNode} (added : innerChildren [fn] = placesFrom trees.length more.length) :
    Numbered (entries ++ [fn]) (trees ++ more) := by
  have next : trees.length = 1 + (trees.length - 1) := by omega
  have sum : (trees ++ more).length - 1 = trees.length - 1 + more.length := by
    rw [List.length_append]
    omega
  rw [Numbered, innerChildren_append, numbered, added, sum, ← placesFrom_append, ← next]

theorem flattenBody_more {nodes : List TempNode} {root : CodeTree UInt8} (few : root.inner ≤ 127)
    {trees : List (CodeTree UInt8)} {s : Flattening} (renumbering : Renumbering nodes root trees s)
    (numbered : Numbered s.tree trees) (more : s.q < s.queue.length) :
    ∃ next trees', flattenBody nodes s = some (.inl next) ∧ Renumbering nodes root trees' next ∧
      Numbered next.tree trees' ∧ next.q = s.q + 1 := by
  have length := renumbering.queued.stands.length_eq
  have most := renumbering.length_le
  have filled := renumbering.filled
  have inside : s.q < trees.length := by omega
  have stands := renumbering.queued.stands.get inside more
  have inner := renumbering.queued.inner trees[s.q] (List.getElem_mem inside)
  have here : trees[s.q]? = some trees[s.q] := List.getElem?_eq_getElem inside
  simp only [List.get_eq_getElem] at stands
  cases tree : trees[s.q] with
  | leaf symbol =>
      rw [tree] at inner
      cases inner
  | node left right =>
      rw [tree] at stands here
      obtain ⟨n, found, ch, onLeft, onRight⟩ := stands
      obtain ⟨next, fn, done, queued, leftLinks, rightLinks, places⟩ :=
        flattenNode_spec renumbering.queued (by omega) (by omega) onLeft onRight
      rw [List.append_assoc] at queued leftLinks rightLinks
      have added : ((queuedFor left ++ queuedFor right).map CodeTree.inner).sum = left.inner + right.inner := by
        rw [List.map_append, List.sum_append, queuedFor_inner, queuedFor_inner]
      refine ⟨_, _, ?_, renumbering.turn here queued added leftLinks rightLinks, numbered.turn ?_ places, rfl⟩
      · simp [flattenBody, more, found, ch, done]
      · omega

theorem flattenBody_advances {nodes : List TempNode} {root : CodeTree UInt8} (few : root.inner ≤ 127) (k : Nat)
    (s : Flattening)
    (inv : ∃ trees, Renumbering nodes root trees s ∧ Numbered s.tree trees ∧ s.q + k = root.inner) :
    Loop.Advances (flattenBody nodes)
      (fun k s => ∃ trees, Renumbering nodes root trees s ∧ Numbered s.tree trees ∧ s.q + k = root.inner)
      (fun entries => LaidOut root entries ∧ entries.length = root.inner ∧
        innerChildren entries = placesFrom 1 (entries.length - 1)) k s := by
  obtain ⟨trees, renumbering, numbered, measure⟩ := inv
  have length := renumbering.queued.stands.length_eq
  have most := renumbering.length_le
  have filled := renumbering.filled
  have within := renumbering.within
  by_cases more : s.q < s.queue.length
  · obtain ⟨next, trees', again, renumbering', numbered', turned⟩ := flattenBody_more few renumbering numbered more
    exact Or.inl ⟨next, k - 1, again, ⟨trees', renumbering', numbered', by omega⟩, by omega⟩
  · have whole : s.tree.length = trees.length := by omega
    have budget := renumbering.budget
    rw [List.drop_of_length_le (by omega)] at budget
    have laidOut : LaidOut root s.tree := ⟨trees, renumbering.start, whole, renumbering.links⟩
    refine Or.inr ⟨s.tree, by rw [flattenBody, if_neg more], laidOut, ?_, ?_⟩
    · rwa [filled]
    · rw [whole]
      exact numbered

/-! ## The layout -/

def LeadsTo (entries : List FlatNode) : CodeTree UInt8 → Int → Prop
  | .leaf symbol, child => child = -(symbol.toNat : Int)
  | .node left right, child => 0 < child ∧ ∃ fn, element? entries child = some fn ∧
      LeadsTo entries left fn.left ∧ LeadsTo entries right fn.right

section

variable {entries : List FlatNode} {trees : List (CodeTree UInt8)} (length : entries.length = trees.length)
  (links : ∀ (place : Nat) (fn : FlatNode), entries[place]? = some fn → ∃ left right,
    trees[place]? = some (.node left right) ∧ Links trees left fn.left ∧ Links trees right fn.right)

include length links

theorem entry_of_links {place : Nat} {left right : CodeTree UInt8} (found : trees[place]? = some (.node left right)) :
    ∃ fn, element? entries place = some fn ∧ Links trees left fn.left ∧ Links trees right fn.right := by
  have inside := (List.getElem?_eq_some_iff.mp found).1
  have filled : entries[place]? = some entries[place] := List.getElem?_eq_getElem (by omega)
  obtain ⟨left', right', found', onLeft, onRight⟩ := links place entries[place] filled
  rw [found] at found'
  obtain ⟨rfl, rfl⟩ := CodeTree.node.inj (Option.some.inj found')
  exact ⟨entries[place], (element?_ofNat entries place).trans filled, onLeft, onRight⟩

theorem leadsTo_of_links {tree : CodeTree UInt8} {child : Int} (linked : Links trees tree child) :
    LeadsTo entries tree child := by
  induction tree generalizing child with
  | leaf symbol => exact linked
  | node left right leftIh rightIh =>
      obtain ⟨place, positive, rfl, found⟩ := linked
      obtain ⟨fn, entry, onLeft, onRight⟩ := entry_of_links length links found
      exact ⟨Int.natCast_pos.mpr positive, fn, entry, leftIh onLeft, rightIh onRight⟩

end

def RootedAt (entries : List FlatNode) (left right : CodeTree UInt8) : Prop :=
  ∃ fn, element? entries 0 = some fn ∧ LeadsTo entries left fn.left ∧ LeadsTo entries right fn.right

theorem rootedAt_of_laidOut {entries : List FlatNode} {left right : CodeTree UInt8}
    (laidOut : LaidOut (.node left right) entries) : RootedAt entries left right := by
  obtain ⟨trees, start, length, links⟩ := laidOut
  obtain ⟨fn, entry, onLeft, onRight⟩ := entry_of_links length links start
  exact ⟨fn, entry, leadsTo_of_links length links onLeft, leadsTo_of_links length links onRight⟩

theorem element?_treeArray {entries : List FlatNode} (few : entries.length ≤ 128) {idx : Int} {fn : FlatNode}
    (found : element? entries idx = some fn) : element? (treeArray entries) idx = some fn := by
  unfold element? at *
  split_ifs at * with inside
  have bound := (List.getElem?_eq_some_iff.mp found).1
  rw [treeArray, resizeTo, List.take_of_length_le few, List.getElem?_append_left bound]
  exact found

theorem LeadsTo.treeArray {entries : List FlatNode} (few : entries.length ≤ 128) {tree : CodeTree UInt8} {child : Int}
    (leads : LeadsTo entries tree child) : LeadsTo (treeArray entries) tree child := by
  induction tree generalizing child with
  | leaf symbol => exact leads
  | node left right leftIh rightIh =>
      obtain ⟨positive, fn, found, onLeft, onRight⟩ := leads
      exact ⟨positive, fn, element?_treeArray few found, leftIh onLeft, rightIh onRight⟩

/-- The merge tree of the constructor, which is a tree of Huffman's algorithm, and its layout in the flat tree. -/
structure Flattened (input : List UInt8) (nodes : List TempNode) (entries : List FlatNode)
    (left right : CodeTree UInt8) : Prop where
  merged : tempNodes input = some nodes
  stands : StandsFor nodes (.node left right) (nodes.length - 1 : Nat)
  grown : (CodeTree.node left right).Grown fun c => input.count c
  leaves : (CodeTree.node left right).leaves.Perm (symbols input)
  budgeted : Budgeted (fun c => input.count c) (symbols input) [.node left right]
  built : flatTree input = some entries
  size : entries.length + 1 = input.dedup.length
  numbered : innerChildren entries = placesFrom 1 (entries.length - 1)
  rooted : RootedAt (treeArray entries) left right

section

variable {input : List UInt8} {nodes : List TempNode} {entries : List FlatNode} {left right : CodeTree UInt8}

theorem Flattened.perm_dedup (flattened : Flattened input nodes entries left right) :
    (CodeTree.node left right).leaves.Perm input.dedup :=
  flattened.leaves.trans (symbols_perm_dedup input)

theorem Flattened.mem_leaves (flattened : Flattened input nodes entries left right) {c : UInt8} :
    c ∈ (CodeTree.node left right).leaves ↔ c ∈ input := by
  rw [flattened.perm_dedup.mem_iff, List.mem_dedup]

theorem Flattened.height_le (flattened : Flattened input nodes entries left right) :
    (CodeTree.node left right).height ≤ entries.length := by
  have inner := flattened.perm_dedup.length_eq
  have size := flattened.size
  have low := CodeTree.height_le_inner (CodeTree.node left right)
  rw [CodeTree.leaves_length] at inner
  omega

end

theorem flatTree_eq (input : List UInt8) : flatTree input =
    (tempNodes input).bind fun nodes => Loop.run (flattenBody nodes) 257 { queue := [int16 (nodes.length - 1)] } := by
  rw [tempNodes, Option.bind_eq_bind, Option.bind_assoc]
  rfl

theorem flatTree_total {input : List UInt8} (noNul : 0 ∉ input) (two : 2 ≤ input.dedup.length)
    (few : input.dedup.length ≤ 128) : ∃ nodes entries left right, Flattened input nodes entries left right := by
  have nonempty : input ≠ [] := by
    rintro rfl
    cases two
  obtain ⟨nodes, ran, tree, merged, budgeted⟩ := merge_total noNul nonempty few
  have length := symbols_length input
  have leaves := merged.leaves.length_eq
  have size := merged.size
  rw [CodeTree.leaves_length] at leaves
  have nodesBuilt : tempNodes input = some nodes := by
    rw [tempNodes, pushLeaves]
    exact ran
  cases tree with
  | leaf symbol =>
      rw [CodeTree.inner] at leaves
      omega
  | node left right =>
      have start : Renumbering nodes (.node left right) [.node left right] { queue := [(nodes.length - 1 : Nat)] } := by
        refine ⟨⟨List.Forall₂.cons merged.stands List.Forall₂.nil, rfl, ?_⟩, rfl, rfl, Nat.zero_le _, ?_, ?_⟩
        · intro tree member
          rw [List.mem_singleton.mp member, CodeTree.inner]
          exact Nat.succ_pos _
        · intro place fn found
          cases found
        · simp
      have inner : (CodeTree.node left right).inner ≤ 127 := by omega
      obtain ⟨entries, flattened, laidOut, most, numbered⟩ := Loop.run_total (flattenBody_advances inner) 257
        (CodeTree.node left right).inner _ ⟨_, start, rfl, Nat.zero_add _⟩ (by omega)
      obtain ⟨fn, found, onLeft, onRight⟩ := rootedAt_of_laidOut laidOut
      have few : entries.length ≤ 128 := by omega
      have narrow : int16 (nodes.length - 1) = (nodes.length - 1 : Nat) := by
        rw [int16_of_small (by omega) (by omega)]
        omega
      refine ⟨nodes, entries, left, right, nodesBuilt, merged.stands, merged.grown, merged.leaves, budgeted, ?_, ?_,
        numbered, fn, element?_treeArray few found, onLeft.treeArray few, onRight.treeArray few⟩
      · rw [flatTree_eq, nodesBuilt, Option.bind_some, narrow]
        exact flattened
      · omega

end KnowledgeAcquisition.Proof.Compress
