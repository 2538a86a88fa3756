import KnowledgeAcquisition.Proof.Compress.HuffmanCodec

/-!
# The bits of a string

The paths of the flat tree are a prefix code of the characters, and no prefix code takes fewer bits for the string.
-/

namespace KnowledgeAcquisition.Proof.Compress
open KnowledgeAcquisition.Compress Library

theorem length_flatMap_eq_bitsOf (input : List UInt8) (code : UInt8 → List Bool) :
    (input.flatMap code).length = CodeTree.bitsOf (fun c => input.count c) input.dedup code := by
  have counted := Finset.sum_list_map_count input fun c => (code c).length
  have characters : input.toFinset = input.dedup.toFinset := by
    ext c
    rw [List.mem_toFinset, List.mem_toFinset, List.mem_dedup]
  rw [characters, List.sum_toFinset _ input.nodup_dedup] at counted
  rw [List.length_flatMap, counted]
  simp only [smul_eq_mul, CodeTree.bitsOf]

theorem bitsOf_perm {freq : UInt8 → Nat} {symbols others : List UInt8} (same : symbols.Perm others)
    (code : UInt8 → List Bool) : CodeTree.bitsOf freq symbols code = CodeTree.bitsOf freq others code :=
  (same.map _).sum_eq

/-- The lengths of the paths are those of a prefix code, and the string has as few bits as with any prefix code. -/
theorem flatTree_optimal {input : List UInt8} (noNul : 0 ∉ input) (two : 2 ≤ input.dedup.length)
    (few : input.dedup.length ≤ 128) :
    ∃ entries own, flatTree input = some entries ∧
      (∀ c ∈ input, ∃ path, pathOf (treeArray entries) c = some path ∧ path.len = (own c).length) ∧
      CodeTree.PrefixCode input.dedup own ∧
      encodedBits input = some (CodeTree.bitsOf (fun c => input.count c) input.dedup own) ∧
      ∀ code, CodeTree.PrefixCode input.dedup code →
        CodeTree.bitsOf (fun c => input.count c) input.dedup own ≤
          CodeTree.bitsOf (fun c => input.count c) input.dedup code := by
  obtain ⟨_, entries, left, right, flattened⟩ := flatTree_total noNul two few
  have same := flattened.perm_dedup
  have low := flattened.height_le
  have size := flattened.size
  have cost : CodeTree.bitsOf (fun c => input.count c) input.dedup (codeOf (.node left right)) =
      (CodeTree.node left right).cost fun c => input.count c := by
    rw [← bitsOf_perm same]
    exact CodeTree.bitsOf_word _ _ (same.nodup_iff.mpr input.nodup_dedup)
  refine ⟨entries, codeOf (.node left right), flattened.built, ?_, ?_, ?_, ?_⟩
  · intro c member
    refine ⟨_, pathOf_rooted flattened.rooted (by omega) c, ?_⟩
    rw [path_eq_codeOf (flattened.mem_leaves.mpr member), pathFrom, Nat.zero_add]
  · intro a member b member' front
    exact CodeTree.word_prefixCode _ a (same.mem_iff.mpr member) b (same.mem_iff.mpr member') front
  · rw [flattened.encodedBits few, length_flatMap_eq_bitsOf]
  · intro code prefixCode
    have symbolCode : CodeTree.PrefixCode (symbols input) code := by
      intro a member b member'
      have perm := symbols_perm_dedup input
      exact prefixCode a (perm.mem_iff.mp member) b (perm.mem_iff.mp member')
    have within : CodeTree.Within (fun c => input.count c) ((symbols input).map .leaf)
        (CodeTree.bitsOf (fun c => input.count c) (symbols input) code) :=
      symbolCode.within (symbols_nodup input) (two.trans (Nat.le_of_eq (symbols_length input).symm))
    rw [cost, ← bitsOf_perm (symbols_perm_dedup input)]
    exact (flattened.budgeted _ within).cost_le

theorem flatTree_optimal_abracadabra :
    let input : List UInt8 := [97, 98, 114, 97, 99, 97, 100, 97, 98, 114, 97]
    ∃ entries own, flatTree input = some entries ∧
      (∀ c ∈ input, ∃ path, pathOf (treeArray entries) c = some path ∧ path.len = (own c).length) ∧
      CodeTree.PrefixCode input.dedup own ∧
      encodedBits input = some (CodeTree.bitsOf (fun c => input.count c) input.dedup own) ∧
      ∀ code, CodeTree.PrefixCode input.dedup code →
        CodeTree.bitsOf (fun c => input.count c) input.dedup own ≤
          CodeTree.bitsOf (fun c => input.count c) input.dedup code :=
  flatTree_optimal (by decide) (by decide) (by decide)

end KnowledgeAcquisition.Proof.Compress
