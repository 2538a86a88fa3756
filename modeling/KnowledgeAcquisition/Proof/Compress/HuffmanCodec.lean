import KnowledgeAcquisition.Library.Bits
import KnowledgeAcquisition.Proof.Compress.HuffmanFlat

/-!
# Packing and unpacking

`find_path` finds the path to a symbol in the tree, the packing lays the paths out in the buffer, and the decoder
walks along them. A path has room in 32 bits because a tree as high as that would be too heavy.
-/

namespace KnowledgeAcquisition.Proof.Compress
open KnowledgeAcquisition.Compress Library

def shiftIn (bits : UInt32) (bit : Bool) : UInt32 := (bits <<< 1) ||| if bit then 1 else 0

/-- What `find_path` returns below a point that it reaches with these bits at this depth. -/
def pathFrom (bits : UInt32) (depth : Nat) : Option (List Bool) → BitPath
  | none => {}
  | some path => { bits := path.foldl shiftIn bits, len := depth + path.length }

theorem pathFrom_cons (bits : UInt32) (depth : Nat) (bit : Bool) (path : List Bool) :
    pathFrom bits depth (some (bit :: path)) = pathFrom (shiftIn bits bit) (depth + 1) (some path) := by
  simp only [pathFrom, List.foldl_cons, List.length_cons, Nat.add_assoc, Nat.add_comm 1]

theorem pathFrom_node (target : UInt8) (left right : CodeTree UInt8) (bits : UInt32) (depth : Nat) :
    pathFrom bits depth ((CodeTree.node left right).path target) =
      if 0 < (pathFrom (shiftIn bits false) (depth + 1) (left.path target)).len then
        pathFrom (shiftIn bits false) (depth + 1) (left.path target)
      else pathFrom (shiftIn bits true) (depth + 1) (right.path target) := by
  cases inLeft : left.path target with
  | some path =>
      have positive : 0 < (pathFrom (shiftIn bits false) (depth + 1) (some path)).len :=
        Nat.lt_of_lt_of_le (Nat.succ_pos depth) (Nat.le_add_right _ _)
      rw [if_pos positive, ← pathFrom_cons, CodeTree.path, inLeft]
  | none =>
      have nothing : ¬ 0 < (pathFrom (shiftIn bits false) (depth + 1) none).len := Nat.lt_irrefl 0
      rw [if_neg nothing, CodeTree.path, inLeft]
      cases right.path target with
      | none => rfl
      | some path => exact pathFrom_cons bits depth true path

theorem findPath_entry {entries : List FlatNode} {target : UInt8} {left right : CodeTree UInt8} {idx : Int}
    {fn : FlatNode} (found : element? entries idx = some fn) {fuel : Nat}
    (onLeft : ∀ bits depth, findChild (findPath entries target fuel) target fn.left bits depth =
      some (pathFrom bits depth (left.path target)))
    (onRight : ∀ bits depth, findChild (findPath entries target fuel) target fn.right bits depth =
      some (pathFrom bits depth (right.path target))) (bits : UInt32) (depth : Nat) :
    findPath entries target (fuel + 1) idx bits depth =
      some (pathFrom bits depth ((CodeTree.node left right).path target)) := by
  rw [findPath, found, pathFrom_node]
  simp only [Option.bind_eq_bind, Option.bind_some, onLeft, onRight]
  exact (apply_ite some _ _ _).symm

theorem ofInt_toNat (c : UInt8) : UInt8.ofInt c.toNat = c := by
  have small := c.toNat_lt
  have value : (c.toNat : Int) % 2 ^ 8 = c.toNat := by omega
  rw [UInt8.ofInt, value, Int.toNat_natCast, UInt8.ofNat_toNat]

theorem findChild_leadsTo {entries : List FlatNode} (target : UInt8) {tree : CodeTree UInt8} {child : Int}
    (leads : LeadsTo entries tree child) {fuel : Nat} (enough : tree.height ≤ fuel) (bits : UInt32) (depth : Nat) :
    findChild (findPath entries target fuel) target child bits depth =
      some (pathFrom bits depth (tree.path target)) := by
  induction tree generalizing child fuel bits depth with
  | leaf symbol =>
      obtain rfl : child = -(symbol.toNat : Int) := leads
      rw [findChild, if_pos (by omega), Int.neg_neg, ofInt_toNat, CodeTree.path]
      split_ifs
      · rfl
      · rfl
  | node left right leftIh rightIh =>
      obtain ⟨positive, fn, found, onLeft, onRight⟩ := leads
      cases fuel with
      | zero => cases enough
      | succ fuel =>
          simp only [CodeTree.height] at enough
          rw [findChild, if_neg (by omega)]
          exact findPath_entry found (leftIh onLeft (by omega)) (rightIh onRight (by omega)) bits depth

theorem pathOf_rooted {entries : List FlatNode} {left right : CodeTree UInt8} (rooted : RootedAt entries left right)
    (low : (CodeTree.node left right).height ≤ 129) (target : UInt8) :
    pathOf entries target = some (pathFrom 0 0 ((CodeTree.node left right).path target)) := by
  obtain ⟨fn, found, onLeft, onRight⟩ := rooted
  simp only [CodeTree.height] at low
  have leftLow : left.height ≤ 128 := by omega
  have rightLow : right.height ≤ 128 := by omega
  exact findPath_entry found (findChild_leadsTo target onLeft leftLow) (findChild_leadsTo target onRight rightLow) 0 0

theorem shiftIn_toNat {bits : UInt32} (small : bits.toNat < 2 ^ 31) (bit : Bool) :
    (shiftIn bits bit).toNat = Nat.bit bit bits.toNat := by
  have doubled : (bits <<< 1).toNat = bits.toNat <<< 1 := by
    have one : (1 : UInt32).toNat % 32 = 1 := rfl
    rw [UInt32.toNat_shiftLeft, one, Nat.shiftLeft_eq]
    exact Nat.mod_eq_of_lt (by omega)
  have low : (if bit then 1 else 0 : UInt32).toNat = bit.toNat := by cases bit <;> rfl
  rw [shiftIn, UInt32.toNat_or, doubled, low, ← Nat.shiftLeft_add_eq_or_of_lt (Bool.toNat_lt bit), Nat.bit_val,
    Nat.shiftLeft_eq, Nat.mul_comm]

theorem foldl_shiftIn_toNat {path : List Bool} (short : path.length ≤ 32) :
    (path.foldl shiftIn 0).toNat = ofBits path := by
  induction path using List.reverseRecOn with
  | nil => rfl
  | append_singleton path bit ih =>
      rw [List.length_append, List.length_singleton] at short
      have before := ih (by omega)
      have bound : ofBits path < 2 ^ 31 :=
        (ofBits_lt path).trans_le (Nat.pow_le_pow_right (by decide) (by omega))
      rw [List.foldl_append, ofBits_append, ← before]
      exact shiftIn_toNat (before ▸ bound) bit

theorem testBit_shifted (bits : UInt32) {shift : Nat} (small : shift < 32) :
    ((bits >>> UInt32.ofNat shift) &&& 1 != 0) = bits.toNat.testBit shift := by
  have same : (UInt32.ofNat shift).toNat % 32 = shift := by
    rw [UInt32.toNat_ofNat_of_lt' (Nat.lt_trans small (by decide)), Nat.mod_eq_of_lt small]
  have value : ((bits >>> UInt32.ofNat shift) &&& 1).toNat = 1 &&& (bits.toNat >>> shift) := by
    rw [UInt32.toNat_and, UInt32.toNat_shiftRight, same, Nat.and_comm]
    rfl
  rw [Nat.testBit, ← value, Bool.eq_iff_iff, bne_iff_ne, bne_iff_ne]
  exact not_congr UInt32.toNat_inj.symm

theorem pathFrom_bit {path : List Bool} (short : path.length ≤ 32) {b : Nat} (inside : b < path.length) :
    (pathFrom 0 0 (some path)).bit b = some path[b] := by
  have place : (pathFrom 0 0 (some path)).len - 1 - b = path.length - 1 - b := by
    rw [pathFrom, Nat.zero_add]
  have small : path.length - 1 - b < 32 := by omega
  rw [BitPath.bit, place, if_pos small, testBit_shifted _ small, ← testBit_ofBits inside, ← foldl_shiftIn_toNat short]
  rfl

/-! ## The packing -/

structure Packed (bits : List Bool) (s : BitPacking) : Prop where
  byteIdx : s.currentByteIdx = bits.length / 8
  bitShift : s.currentBitShift = bits.length % 8
  holds : ∀ i, bitAt s.compressedBytes i = bits.getD i false

theorem packed_nil : Packed [] {} := ⟨rfl, rfl, fun i => bitAt_replicate 65000 i⟩

theorem getD_append_bit (bits : List Bool) (bit : Bool) (i : Nat) :
    (bits ++ [bit]).getD i false = (bits.getD i false || (bit && decide (i = bits.length))) := by
  rcases Nat.lt_trichotomy i bits.length with before | rfl | behind
  · have apart : i ≠ bits.length := Nat.ne_of_lt before
    simp [List.getElem?_append_left before, apart]
  · simp
  · have apart : i ≠ bits.length := Nat.ne_of_gt behind
    have outside : (bits ++ [bit]).length ≤ i := by
      rw [List.length_append, List.length_singleton]
      exact behind
    simp [List.getElem?_eq_none outside, List.getElem?_eq_none (Nat.le_of_lt behind), apart]

theorem written_holds {bits : List Bool} {s : BitPacking} (packed : Packed bits s) (room : bits.length < 65000 * 8)
    (bit : Bool) :
    ∃ bytes, (if bit then setBit s.compressedBytes s.currentByteIdx (7 - s.currentBitShift)
      else some s.compressedBytes) = some bytes ∧ ∀ i, bitAt bytes i = (bits ++ [bit]).getD i false := by
  cases bit with
  | false =>
      refine ⟨s.compressedBytes, rfl, fun i => ?_⟩
      rw [packed.holds, getD_append_bit, Bool.false_and, Bool.or_false]
  | true =>
      have inside : bits.length / 8 < 65000 := by omega
      rw [if_pos rfl, packed.byteIdx, packed.bitShift, setBit, dif_pos inside]
      refine ⟨_, rfl, fun i => ?_⟩
      rw [getD_append_bit, ← packed.holds]
      exact bitAt_set s.compressedBytes inside i

theorem pushBit_packed {bits : List Bool} {s : BitPacking} (packed : Packed bits s) (room : bits.length < 65000 * 8)
    (bit : Bool) : ∃ next, s.pushBit bit = some next ∧ Packed (bits ++ [bit]) next := by
  obtain ⟨bytes, stored, holds⟩ := written_holds packed room bit
  have byteIdx := packed.byteIdx
  have bitShift := packed.bitShift
  refine ⟨_, by rw [BitPacking.pushBit, stored, Option.map_some], ?_⟩
  split_ifs
  · refine ⟨?_, ?_, holds⟩
    · simp only [List.length_append, List.length_singleton]
      omega
    · simp only [List.length_append, List.length_singleton]
      omega
  · refine ⟨?_, ?_, holds⟩
    · simp only [List.length_append, List.length_singleton]
      omega
    · simp only [List.length_append, List.length_singleton]
      omega

theorem pushPath_packed {bits path : List Bool} {s : BitPacking} (packed : Packed bits s) (short : path.length ≤ 32)
    (room : bits.length + path.length ≤ 65000 * 8) :
    ∃ next, s.pushPath (pathFrom 0 0 (some path)) = some next ∧ Packed (bits ++ path) next := by
  have step : ∀ b s, b < path.length → Packed (bits ++ path.take b) s →
      ∃ next, ((pathFrom 0 0 (some path)).bit b).bind s.pushBit = some next ∧
        Packed (bits ++ path.take (b + 1)) next := by
    intro b s inside packed
    have length : (bits ++ path.take b).length < 65000 * 8 := by
      rw [List.length_append, List.length_take]
      omega
    rw [pathFrom_bit short inside, Option.bind_some, ← List.take_concat_get' path b inside, ← List.append_assoc]
    exact pushBit_packed packed length path[b]
  have start : Packed (bits ++ path.take 0) s := by simpa using packed
  obtain ⟨last, pushed, packed'⟩ := Loop.foldlM_range_total (I := fun b s => Packed (bits ++ path.take b) s) step start
  refine ⟨last, ?_, ?_⟩
  · have length : (pathFrom 0 0 (some path)).len = path.length := Nat.zero_add _
    rw [BitPacking.pushPath, length]
    exact pushed
  · rw [List.take_length] at packed'
    exact packed'

/-! ## The decoder -/

def readerAt (place : Nat) : BitReader := { byteIdx := place / 8, bitIdx := place % 8 }

theorem readBit_readerAt (bytes : Vector UInt8 65000) {place : Nat} (inside : place < 65000 * 8) :
    (readerAt place).readBit bytes = some (bitAt bytes place, readerAt (place + 1)) := by
  have byte : place / 8 < 65000 := by omega
  unfold BitReader.readBit readerAt bitAt
  simp only [Vector.getElem?_eq_getElem byte, Option.bind_eq_bind, Option.bind_some, Option.getD_some, Nat.testBit,
    Nat.and_comm 1]
  by_cases last : place % 8 + 1 = 8
  · have next : (place + 1) / 8 = place / 8 + 1 ∧ (place + 1) % 8 = 0 := by omega
    rw [if_pos last, next.1, next.2]
  · have next : (place + 1) / 8 = place / 8 ∧ (place + 1) % 8 = place % 8 + 1 := by omega
    rw [if_neg last, next.1, next.2]

def walking (place : Nat) (result : List UInt8) (idx : Int) : Decompression :=
  { reader := readerAt place, charactersDecompressed := result.length, currNodeIdx := idx, result }

def arrived (place : Nat) (result : List UInt8) (child : Int) : Decompression :=
  if child ≤ 0 then walking place (result ++ [UInt8.ofInt (-child)]) 0 else walking place result child

def Reads (bytes : Vector UInt8 65000) (place : Nat) (bits : List Bool) : Prop :=
  place + bits.length ≤ 65000 * 8 ∧ ∀ (i : Nat) (inside : i < bits.length), bitAt bytes (place + i) = bits[i]

theorem Reads.tail {bytes : Vector UInt8 65000} {place : Nat} {bit : Bool} {bits : List Bool}
    (reads : Reads bytes place (bit :: bits)) : Reads bytes (place + 1) bits := by
  obtain ⟨room, same⟩ := reads
  rw [List.length_cons] at room
  refine ⟨by omega, fun i inside => ?_⟩
  rw [Nat.add_assoc, Nat.add_comm 1]
  exact same (i + 1) (Nat.succ_lt_succ inside)

theorem arrived_leaf (place : Nat) (result : List UInt8) (symbol : UInt8) :
    arrived place result (-(symbol.toNat : Int)) = walking place (result ++ [symbol]) 0 := by
  rw [arrived, if_pos (by omega), Int.neg_neg, ofInt_toNat]

section
variable {huff : CompileTimeHuffman} {result : List UInt8} (unfinished : result.length < huff.originalLength)
include unfinished

theorem body_entry {place : Nat} {idx : Int} {fn : FlatNode} (found : element? huff.tree idx = some fn) {bit : Bool}
    {bits : List Bool} (reads : Reads huff.compressedBytes place (bit :: bits)) :
    Decompression.body huff (walking place result idx) =
      some (.inl (arrived (place + 1) result (if bit then fn.right else fn.left))) := by
  obtain ⟨room, same⟩ := reads
  rw [List.length_cons] at room
  have here : bitAt huff.compressedBytes place = bit := same 0 (Nat.succ_pos _)
  have inside : place < 65000 * 8 := by omega
  simp only [Decompression.body, walking, unfinished, if_true, readBit_readerAt huff.compressedBytes inside, here, found,
    Option.bind_eq_bind, Option.bind_some, arrived, List.length_append, List.length_singleton]
  split_ifs
  · rfl
  · rfl
  · rfl
  · rfl

theorem turns_entry {left right : CodeTree UInt8} {idx : Int} {fn : FlatNode} (entry : element? huff.tree idx = some fn)
    {symbol : UInt8}
    (onLeft : ∀ {path : List Bool}, left.path symbol = some path → ∀ {place : Nat},
      Reads huff.compressedBytes place path →
      Loop.Turns (Decompression.body huff) (arrived place result fn.left)
        (walking (place + path.length) (result ++ [symbol]) 0))
    (onRight : ∀ {path : List Bool}, right.path symbol = some path → ∀ {place : Nat},
      Reads huff.compressedBytes place path →
      Loop.Turns (Decompression.body huff) (arrived place result fn.right)
        (walking (place + path.length) (result ++ [symbol]) 0))
    {path : List Bool} (found : (CodeTree.node left right).path symbol = some path) {place : Nat}
    (reads : Reads huff.compressedBytes place path) :
    Loop.Turns (Decompression.body huff)
      (walking place result idx)
      (walking (place + path.length) (result ++ [symbol]) 0) := by
  rcases CodeTree.path_node_cases found with ⟨rest, inLeft, rfl⟩ | ⟨rest, -, inRight, rfl⟩
  · have after := onLeft inLeft reads.tail
    rw [Nat.add_assoc, Nat.add_comm 1] at after
    exact Relation.ReflTransGen.head (body_entry unfinished entry reads) after
  · have after := onRight inRight reads.tail
    rw [Nat.add_assoc, Nat.add_comm 1] at after
    exact Relation.ReflTransGen.head (body_entry unfinished entry reads) after

theorem turns_child {tree : CodeTree UInt8} {child : Int} (leads : LeadsTo huff.tree tree child) {symbol : UInt8}
    {path : List Bool} (found : tree.path symbol = some path) {place : Nat}
    (reads : Reads huff.compressedBytes place path) :
    Loop.Turns (Decompression.body huff) (arrived place result child)
      (walking (place + path.length) (result ++ [symbol]) 0) := by
  induction tree generalizing child path place with
  | leaf other =>
      obtain rfl : child = -(other.toNat : Int) := leads
      obtain ⟨same, rfl⟩ := CodeTree.path_leaf_cases found
      rw [arrived_leaf, same]
      exact Relation.ReflTransGen.refl
  | node left right leftIh rightIh =>
      obtain ⟨positive, fn, entry, onLeft, onRight⟩ := leads
      rw [arrived, if_neg (by omega)]
      exact turns_entry unfinished entry (leftIh onLeft) (rightIh onRight) found reads

end

def codeOf (tree : CodeTree UInt8) (c : UInt8) : List Bool := (tree.path c).getD []

theorem path_eq_codeOf {tree : CodeTree UInt8} {c : UInt8} (member : c ∈ tree.leaves) :
    tree.path c = some (codeOf tree c) := by
  obtain ⟨path, found⟩ := CodeTree.exists_path member
  rw [codeOf, found]
  rfl

theorem codeOf_node_pos {left right : CodeTree UInt8} {c : UInt8} {path : List Bool}
    (found : (CodeTree.node left right).path c = some path) : 0 < path.length := by
  rcases CodeTree.path_node_cases found with ⟨rest, -, rfl⟩ | ⟨rest, -, -, rfl⟩
  · exact Nat.succ_pos _
  · exact Nat.succ_pos _

theorem Reads.part {bytes : Vector UInt8 65000} {front bits back : List Bool}
    (reads : Reads bytes 0 (front ++ bits ++ back)) : Reads bytes front.length bits := by
  obtain ⟨room, same⟩ := reads
  simp only [List.length_append] at room
  refine ⟨by omega, fun i inside => ?_⟩
  have here := same (front.length + i) (by simp only [List.length_append]; omega)
  rw [Nat.zero_add] at here
  rw [here, List.getElem_append_left (by rw [List.length_append]; omega), List.getElem_append_right (by omega)]
  simp

section
variable {left right : CodeTree UInt8} {input : List UInt8} (known : ∀ c ∈ input, c ∈ (CodeTree.node left right).leaves)
include known

theorem known_of_split {past rest : List UInt8} {c : UInt8} (split : input = past ++ c :: rest) :
    (CodeTree.node left right).path c = some (codeOf (.node left right) c) := by
  apply path_eq_codeOf
  apply known
  rw [split]
  exact List.mem_append_right _ List.mem_cons_self

theorem turns_input {huff : CompileTimeHuffman} (rooted : RootedAt huff.tree left right)
    (length : huff.originalLength = input.length)
    (reads : Reads huff.compressedBytes 0 (input.flatMap (codeOf (.node left right)))) :
    Loop.Turns (Decompression.body huff) {}
      (walking (input.flatMap (codeOf (.node left right))).length input 0) := by
  obtain ⟨fn, entry, onLeft, onRight⟩ := rooted
  have rest : ∀ rest past, input = past ++ rest →
      Loop.Turns (Decompression.body huff) (walking (past.flatMap (codeOf (.node left right))).length past 0)
        (walking (input.flatMap (codeOf (.node left right))).length input 0) := by
    intro rest
    induction rest with
    | nil =>
        intro past split
        rw [List.append_nil] at split
        rw [split]
        exact Relation.ReflTransGen.refl
    | cons c rest ih =>
        intro past split
        have here : Reads huff.compressedBytes (past.flatMap (codeOf (.node left right))).length
            (codeOf (.node left right) c) := by
          rw [split, List.flatMap_append, List.flatMap_cons, ← List.append_assoc] at reads
          exact reads.part
        have unfinished : past.length < huff.originalLength := by
          rw [length, split, List.length_append, List.length_cons]
          omega
        have after := ih (past ++ [c]) (by rw [split, List.append_assoc]; rfl)
        have whole := turns_entry unfinished entry (turns_child unfinished onLeft) (turns_child unfinished onRight)
          (known_of_split known split) here
        rw [List.flatMap_append, List.length_append, List.flatMap_singleton] at after
        exact Relation.ReflTransGen.trans whole after
  have start : walking 0 [] 0 = {} := rfl
  have turns := rest input [] rfl
  rw [List.flatMap_nil, List.length_nil, start] at turns
  exact turns

theorem pushChars_packed {entries : List FlatNode} (rooted : RootedAt entries left right)
    (low : (CodeTree.node left right).height ≤ 32)
    (room : (input.flatMap (codeOf (.node left right))).length ≤ 65000 * 8) :
    ∃ s, input.foldlM (BitPacking.pushChar entries) {} = some s ∧
      Packed (input.flatMap (codeOf (.node left right))) s := by
  apply Loop.foldlM_total (I := fun past s => Packed (past.flatMap (codeOf (.node left right))) s)
  · intro past c rest s split packed
    have found := known_of_split known split
    have short : (codeOf (.node left right) c).length ≤ 32 := (CodeTree.path_length_le found).trans low
    rw [split, List.flatMap_append, List.flatMap_cons, List.length_append, List.length_append] at room
    rw [BitPacking.pushChar, pathOf_rooted rooted (by omega), Option.bind_some, found, List.flatMap_append,
      List.flatMap_singleton]
    exact pushPath_packed packed short (by omega)
  · exact packed_nil

theorem encodedBits_eq {entries : List FlatNode} (built : flatTree input = some entries)
    (rooted : RootedAt (treeArray entries) left right) (low : (CodeTree.node left right).height ≤ 129) :
    encodedBits input = some (input.flatMap (codeOf (.node left right))).length := by
  have step : ∀ past c rest bits, input = past ++ c :: rest → bits = (past.flatMap (codeOf (.node left right))).length →
      ∃ next, (pathOf (treeArray entries) c).map (fun path => bits + path.len) = some next ∧
        next = ((past ++ [c]).flatMap (codeOf (.node left right))).length := by
    rintro past c rest bits split rfl
    refine ⟨_, by rw [pathOf_rooted rooted low, known_of_split known split, Option.map_some], ?_⟩
    rw [List.flatMap_append, List.flatMap_singleton, List.length_append, pathFrom, Nat.zero_add]
  obtain ⟨bits, summed, rfl⟩ := Loop.foldlM_total step rfl
  simp only [encodedBits, built, Option.bind_eq_bind, Option.bind_some]
  exact summed

theorem length_le_flatMap : input.length ≤ (input.flatMap (codeOf (.node left right))).length := by
  induction input with
  | nil => exact Nat.le_refl 0
  | cons c input ih =>
      have rest := ih fun c member => known c (List.mem_cons_of_mem _ member)
      have found := path_eq_codeOf (known c List.mem_cons_self)
      have positive := codeOf_node_pos found
      rw [List.length_cons, List.flatMap_cons, List.length_append]
      omega

end

theorem height_le_of_short {left right : CodeTree UInt8} {input : List UInt8}
    (grown : (CodeTree.node left right).Grown fun c => input.count c)
    (leaves : (CodeTree.node left right).leaves.Perm (symbols input)) (short : input.length ≤ 65000 * 8) :
    (CodeTree.node left right).height ≤ 32 := by
  have positive : ∀ c ∈ (CodeTree.node left right).leaves, 0 < input.count c :=
    fun c member => List.count_pos_iff.mpr (mem_symbols.mp (leaves.mem_iff.mp member))
  have weight : (CodeTree.node left right).weight (fun c => input.count c) = input.length := by
    rw [CodeTree.weight_eq_sum, ((leaves.trans (symbols_perm_dedup input)).map _).sum_eq,
      List.sum_map_count_dedup_eq_length]
  have bound := (CodeTree.fib_le_weight grown positive).1
  rw [weight] at bound
  apply Nat.le_of_not_lt
  intro high
  have larger : Nat.fib 30 ≤ Nat.fib ((CodeTree.node left right).height + 2) := Nat.fib_mono (by omega)
  have value : Nat.fib 30 = 832040 := by decide
  omega

section

variable {input : List UInt8} {nodes : List TempNode} {entries : List FlatNode} {left right : CodeTree UInt8}
  (flattened : Flattened input nodes entries left right) (few : input.dedup.length ≤ 128)

include flattened few

theorem Flattened.encodedBits :
    Compress.encodedBits input = some (input.flatMap (codeOf (.node left right))).length := by
  have size := flattened.size
  have low := flattened.height_le
  exact encodedBits_eq (fun _ => flattened.mem_leaves.mpr) flattened.built flattened.rooted (by omega)

variable (fits : ∀ bits ∈ Compress.encodedBits input, bits ≤ 65000 * 8)

include fits

theorem Flattened.room : (input.flatMap (codeOf (.node left right))).length ≤ 65000 * 8 :=
  fits _ (flattened.encodedBits few)

theorem Flattened.height_le_of_fits : (CodeTree.node left right).height ≤ 32 :=
  height_le_of_short flattened.grown flattened.leaves
    ((length_le_flatMap fun _ => flattened.mem_leaves.mpr).trans (flattened.room few fits))

end

theorem readBit_spec {bytes : Vector UInt8 65000} {reader next : BitReader} {bit : Bool}
    (read : reader.readBit bytes = some (bit, next)) (small : reader.bitIdx < 8) :
    reader.byteIdx < 65000 ∧ next.bitIdx < 8 ∧
      next.byteIdx * 8 + next.bitIdx = reader.byteIdx * 8 + reader.bitIdx + 1 := by
  obtain ⟨byte, found, rest⟩ := Option.bind_eq_some_iff.mp read
  have inside := (Vector.getElem?_eq_some_iff.mp found).1
  split_ifs at rest
  · obtain ⟨-, rfl⟩ := Prod.mk.inj (Option.some.inj rest)
    refine ⟨inside, Nat.succ_pos 7, ?_⟩
    simp only
    omega
  · obtain ⟨-, rfl⟩ := Prod.mk.inj (Option.some.inj rest)
    simp only
    omega

theorem body_reads {huff : CompileTimeHuffman} {s next : Decompression}
    (again : Decompression.body huff s = some (.inl next)) :
    ∃ bit, s.reader.readBit huff.compressedBytes = some (bit, next.reader) := by
  unfold Decompression.body at again
  by_cases unfinished : s.charactersDecompressed < huff.originalLength
  · rw [if_pos unfinished] at again
    obtain ⟨⟨bit, reader⟩, read, again⟩ := Option.bind_eq_some_iff.mp again
    obtain ⟨fn, -, again⟩ := Option.bind_eq_some_iff.mp again
    refine ⟨bit, read.trans ?_⟩
    generalize (if bit then fn.right else fn.left) = nextStep at again
    simp only at again
    split_ifs at again
    · obtain rfl := Sum.inl.inj (Option.some.inj again)
      rfl
    · obtain rfl := Sum.inl.inj (Option.some.inj again)
      rfl
  · rw [if_neg unfinished] at again
    cases Option.some.inj again

theorem decompress_turns {huff : CompileTimeHuffman} {place : Nat} {input : List UInt8}
    (length : huff.originalLength = input.length)
    (turns : Loop.Turns (Decompression.body huff) {} (walking place input 0)) :
    Loop.run (Decompression.body huff) (65000 * 8 + 1) {} = some input := by
  have falls : ∀ s next : Decompression, s.reader.bitIdx < 8 → Decompression.body huff s = some (.inl next) →
      next.reader.bitIdx < 8 ∧ 65000 * 8 - (next.reader.byteIdx * 8 + next.reader.bitIdx) <
        65000 * 8 - (s.reader.byteIdx * 8 + s.reader.bitIdx) := by
    intro s next small again
    obtain ⟨bit, read⟩ := body_reads again
    obtain ⟨inside, small', further⟩ := readBit_spec read small
    exact ⟨small', by omega⟩
  have leaves : Decompression.body huff (walking place input 0) = some (.inr input) := by
    rw [Decompression.body, if_neg (by rw [length]; exact Nat.lt_irrefl _)]
    rfl
  exact Loop.run_of_turns falls (by decide) turns leaves (Nat.lt_succ_of_le (Nat.sub_le _ _))

theorem decompress_compileTimeHuffman {input : List UInt8} (noNul : 0 ∉ input) (two : 2 ≤ input.dedup.length)
    (few : input.dedup.length ≤ 128) (fits : ∀ bits ∈ encodedBits input, bits ≤ 65000 * 8) :
    (compileTimeHuffman input).bind decompressEmbeddedData = some input := by
  obtain ⟨_, entries, left, right, flattened⟩ := flatTree_total noNul two few
  have known : ∀ c ∈ input, c ∈ (CodeTree.node left right).leaves := fun _ => flattened.mem_leaves.mpr
  have room := flattened.room few fits
  obtain ⟨s, pushed, packed⟩ := pushChars_packed known flattened.rooted (flattened.height_le_of_fits few fits) room
  have nonempty : input ≠ [] := by
    rintro rfl
    cases two
  have reads : Reads s.compressedBytes 0 (input.flatMap (codeOf (.node left right))) := by
    refine ⟨by rw [Nat.zero_add]; exact room, fun i inside => ?_⟩
    rw [Nat.zero_add, packed.holds, List.getD_eq_getElem _ _ inside]
  have finished (huff : CompileTimeHuffman) (tree : huff.tree = treeArray entries)
      (bytes : huff.compressedBytes = s.compressedBytes) (length : huff.originalLength = input.length) :
      decompressEmbeddedData huff = some input := by
    rw [decompressEmbeddedData, if_neg (by rw [length]; exact fun none => nonempty (List.length_eq_zero_iff.mp none))]
    exact decompress_turns length (turns_input known (tree ▸ flattened.rooted) length (bytes ▸ reads))
  simp only [compileTimeHuffman, nonempty, if_false, flattened.built, Option.bind_eq_bind, Option.bind_some, pushed]
  exact finished _ rfl rfl rfl

theorem abracadabra_fits :
    ∀ bits ∈ encodedBits [97, 98, 114, 97, 99, 97, 100, 97, 98, 114, 97], bits ≤ 65000 * 8 := by
  decide +kernel

theorem abracadabra_comes_back :
    (compileTimeHuffman [97, 98, 114, 97, 99, 97, 100, 97, 98, 114, 97]).bind decompressEmbeddedData =
      some [97, 98, 114, 97, 99, 97, 100, 97, 98, 114, 97] :=
  decompress_compileTimeHuffman (by decide) (by decide) (by decide) abracadabra_fits

end KnowledgeAcquisition.Proof.Compress
