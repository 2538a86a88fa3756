import KnowledgeAcquisition.MachineLearning.Tensor4D
import KnowledgeAcquisition.Proof.MachineLearning.Matmul
import Mathlib.Data.Nat.ModEq
import Mathlib.Tactic.Ring

/-!
# Tensors of four dimensions

Where the elements lie, the loops that assign them, and when `matmul_gemm` gives the product.
-/

namespace KnowledgeAcquisition.Proof.MachineLearning
open KnowledgeAcquisition.MachineLearning Library Tensor4D
open Tensor2D (forEach store)

variable {α : Type*} {tensor : Tensor4D α} {b c h w : Nat}

structure IsConstructed (tensor : Tensor4D α) : Prop where
  strideB_eq : tensor.strideB = sizeT (tensor.channels * tensor.height * tensor.width)
  strideC_eq : tensor.strideC = sizeT (tensor.height * tensor.width)
  strideH_eq : tensor.strideH = tensor.width
  length_eq : tensor.data.length = sizeT (tensor.batch * tensor.channels * tensor.height * tensor.width)
  fits : tensor.data.length ≤ maxSize

def offset (channels height width b c h w : Nat) : Nat := ((b * channels + c) * height + h) * width + w

theorem IsConstructed.atIndex_eq (constructed : IsConstructed tensor) (b c h w : Nat) :
    tensor.atIndex b c h w = sizeT (offset tensor.channels tensor.height tensor.width b c h w) := by
  have strides : Nat.ModEq 18446744073709551616 (b * tensor.strideB + c * tensor.strideC + h * tensor.strideH + w)
      (b * (tensor.channels * tensor.height * tensor.width) + c * (tensor.height * tensor.width) +
        h * tensor.width + w) := by
    rw [constructed.strideB_eq, constructed.strideC_eq, constructed.strideH_eq]
    exact Nat.ModEq.add_right _ (Nat.ModEq.add_right _
      (Nat.ModEq.add (Nat.ModEq.mul_left _ (Nat.mod_modEq _ _)) (Nat.ModEq.mul_left _ (Nat.mod_modEq _ _))))
  have same : b * (tensor.channels * tensor.height * tensor.width) + c * (tensor.height * tensor.width) +
      h * tensor.width + w = offset tensor.channels tensor.height tensor.width b c h w := by
    unfold offset
    ring
  rw [atIndex, ← same]
  exact strides

theorem offset_lt {batch channels height width : Nat} (inB : b < batch) (inC : c < channels) (inH : h < height)
    (inW : w < width) : offset channels height width b c h w < batch * channels * height * width :=
  flat_lt (flat_lt (flat_lt inB inC) inH) inW

def elementAt (tensor : Tensor4D α) (b c h w : Nat) : Option α :=
  if b < tensor.batch ∧ c < tensor.channels ∧ h < tensor.height ∧ w < tensor.width then
    tensor.data[offset tensor.channels tensor.height tensor.width b c h w]?
  else none

theorem elementAt_eq_some {value : α} (found : elementAt tensor b c h w = some value) :
    (b < tensor.batch ∧ c < tensor.channels ∧ h < tensor.height ∧ w < tensor.width) ∧
      offset tensor.channels tensor.height tensor.width b c h w < tensor.data.length := by
  unfold elementAt at found
  split at found
  · rename_i inside
    exact ⟨inside, (List.getElem?_eq_some_iff.mp found).1⟩
  · cases found

theorem elementAt_of_lt (inB : b < tensor.batch) (inC : c < tensor.channels) (inH : h < tensor.height)
    (inW : w < tensor.width) (inside : offset tensor.channels tensor.height tensor.width b c h w < tensor.data.length) :
    ∃ value, elementAt tensor b c h w = some value := by
  rw [elementAt, if_pos ⟨inB, inC, inH, inW⟩, List.getElem?_eq_getElem inside]
  exact ⟨_, rfl⟩

theorem offset_last {total channels height width : Nat} (someC : 0 < channels) (someH : 0 < height) (someW : 0 < width) :
    offset total height width b (channels - 1) (height - 1) (width - 1) + 1 =
      (b * total + channels) * (height * width) := by
  obtain ⟨c, rfl⟩ := Nat.exists_eq_succ_of_ne_zero (Nat.ne_of_gt someC)
  obtain ⟨h, rfl⟩ := Nat.exists_eq_succ_of_ne_zero (Nat.ne_of_gt someH)
  obtain ⟨w, rfl⟩ := Nat.exists_eq_succ_of_ne_zero (Nat.ne_of_gt someW)
  simp only [offset, Nat.succ_eq_add_one, Nat.add_sub_cancel]
  ring

theorem full_of_elements (elements : ∀ b c h w, b < tensor.batch → c < tensor.channels → h < tensor.height →
      w < tensor.width → ∃ value, elementAt tensor b c h w = some value) :
    tensor.batch * tensor.channels * tensor.height * tensor.width ≤ tensor.data.length := by
  by_cases empty : tensor.batch * tensor.channels * tensor.height * tensor.width = 0
  · exact empty ▸ Nat.zero_le _
  · simp only [Nat.mul_eq_zero, not_or] at empty
    obtain ⟨⟨⟨someB, someC⟩, someH⟩, someW⟩ := empty
    obtain ⟨value, found⟩ := elements _ _ _ _ (Nat.sub_one_lt someB) (Nat.sub_one_lt someC) (Nat.sub_one_lt someH)
      (Nat.sub_one_lt someW)
    have last := @offset_last (tensor.batch - 1) tensor.channels _ _ _ (Nat.pos_of_ne_zero someC)
      (Nat.pos_of_ne_zero someH) (Nat.pos_of_ne_zero someW)
    rw [← Nat.succ_mul, Nat.succ_eq_add_one, Nat.sub_add_cancel (Nat.pos_of_ne_zero someB), ← Nat.mul_assoc] at last
    rw [← last]
    exact (elementAt_eq_some found).2

theorem IsConstructed.atValue_eq {value : α} (constructed : IsConstructed tensor)
    (found : elementAt tensor b c h w = some value) : tensor.atValue b c h w = some value := by
  obtain ⟨within, inside⟩ := elementAt_eq_some found
  rw [elementAt, if_pos within] at found
  rw [atValue, constructed.atIndex_eq, sizeT_eq (Nat.le_trans (Nat.le_of_lt inside) constructed.fits), found]

variable {batch channels height width : Nat}

structure Filled (target : Tensor4D α) (v : Nat → Option α) (count : Nat) (tensor : Tensor4D α) : Prop where
  same : tensor = { target with data := tensor.data }
  length_eq : tensor.data.length = target.data.length
  element : ∀ x, x < count → tensor.data[x]? = v x

theorem filled_zero (target : Tensor4D α) (v : Nat → Option α) : Filled target v 0 target :=
  ⟨rfl, rfl, fun x inside => absurd inside (Nat.not_lt_zero x)⟩

variable {target : Tensor4D α} {v : Nat → Option α} {count size n : Nat}

theorem Filled.assign {value : α} (filled : Filled target v count tensor) (index : target.atIndex b c h w = count)
    (inside : count < target.data.length) (assigned : v count = some value) :
    ∃ next, tensor.atAssign b c h w value = some next ∧ Filled target v (count + 1) next := by
  have index' : tensor.atIndex b c h w = count := by
    rw [filled.same]
    exact index
  have inside' : count < tensor.data.length := filled.length_eq ▸ inside
  refine ⟨{ tensor with data := tensor.data.set count value }, ?_, ?_, ?_, ?_⟩
  · rw [atAssign, index', store, if_pos inside']
    rfl
  · rw [filled.same]
  · rw [List.length_set, filled.length_eq]
  · intro x early
    rcases Nat.lt_succ_iff_lt_or_eq.mp early with before | rfl
    · rw [List.getElem?_set_ne (Nat.ne_of_gt before), filled.element x before]
    · rw [List.getElem?_set_self inside', assigned]

theorem Filled.loop {body : Tensor4D α → Nat → Option (Tensor4D α)} (filled : Filled target v count tensor)
    (step : ∀ i now, i < n → Filled target v (count + i * size) now →
      ∃ next, body now i = some next ∧ Filled target v (count + i * size + size) next) :
    ∃ last, forEach n tensor body = some last ∧ Filled target v (count + n * size) last := by
  refine forEach_total (I := fun i now => Filled target v (count + i * size) now) ?_ ?_ fun _ inv => inv
  · rw [Nat.zero_mul]
    exact filled
  · intro i now inside inv
    obtain ⟨next, ran, inv'⟩ := step i now inside inv
    refine ⟨next, ran, ?_⟩
    rwa [Nat.succ_mul, ← Nat.add_assoc]

def inOrder (channels height width : Nat) (value : Nat → Nat → Nat → Nat → Option α) (x : Nat) : Option α :=
  value (x / width / height / channels) (x / width / height % channels) (x / width % height) (x % width)

theorem inOrder_offset (value : Nat → Nat → Nat → Nat → Option α) (inC : c < channels) (inH : h < height)
    (inW : w < width) : inOrder channels height width value (offset channels height width b c h w) = value b c h w := by
  rw [inOrder, offset, flat_div inW, flat_mod inW, flat_div inH, flat_mod inH, flat_div inC, flat_mod inC]

structure HasShape (batch channels height width : Nat) (tensor : Tensor4D α) : Prop where
  constructed : IsConstructed tensor
  batch_eq : tensor.batch = batch
  channels_eq : tensor.channels = channels
  height_eq : tensor.height = height
  width_eq : tensor.width = width
  fits : batch * channels * height * width ≤ maxSize

theorem HasShape.length_eq (shape : HasShape batch channels height width tensor) :
    tensor.data.length = batch * channels * height * width := by
  rw [shape.constructed.length_eq, shape.batch_eq, shape.channels_eq, shape.height_eq, shape.width_eq,
    sizeT_eq shape.fits]

theorem HasShape.atIndex_eq (shape : HasShape batch channels height width tensor) (inB : b < batch) (inC : c < channels)
    (inH : h < height) (inW : w < width) : tensor.atIndex b c h w = offset channels height width b c h w := by
  rw [shape.constructed.atIndex_eq, shape.channels_eq, shape.height_eq, shape.width_eq]
  exact sizeT_eq (Nat.le_trans (Nat.le_of_lt (offset_lt inB inC inH inW)) shape.fits)

theorem HasShape.element (shape : HasShape batch channels height width tensor) (inB : b < batch) (inC : c < channels)
    (inH : h < height) (inW : w < width) : ∃ value, elementAt tensor b c h w = some value := by
  have inside := offset_lt inB inC inH inW
  rw [← shape.length_eq] at inside
  apply elementAt_of_lt
  · rwa [shape.batch_eq]
  · rwa [shape.channels_eq]
  · rwa [shape.height_eq]
  · rwa [shape.width_eq]
  · rwa [shape.channels_eq, shape.height_eq, shape.width_eq]

theorem assignEach_filled {value : Nat → Nat → Nat → Nat → Option α}
    (shape : HasShape batch channels height width target)
    (values : ∀ b c h w, b < batch → c < channels → h < height → w < width → ∃ assigned, value b c h w = some assigned) :
    ∃ next, assignEach batch channels height width value target = some next ∧
      Filled target (inOrder channels height width value) (batch * channels * height * width) next := by
  have all : batch * channels * height * width = 0 + batch * (channels * (height * (width * 1))) := by ring
  rw [all]
  apply (filled_zero target _).loop
  intro b now inB filled
  apply filled.loop
  intro c now inC filled
  apply filled.loop
  intro h now inH filled
  apply filled.loop
  intro w now inW filled
  obtain ⟨assigned, found⟩ := values b c h w inB inC inH inW
  have here : 0 + b * (channels * (height * (width * 1))) + c * (height * (width * 1)) + h * (width * 1) + w * 1 =
      offset channels height width b c h w := by
    unfold offset
    ring
  rw [here] at filled ⊢
  rw [found]
  apply filled.assign (shape.atIndex_eq inB inC inH inW)
  · rw [shape.length_eq]
    exact offset_lt inB inC inH inW
  · rw [inOrder_offset value inC inH inW, found]

theorem Filled.hasShape (filled : Filled target v count tensor) (shape : HasShape batch channels height width target) :
    HasShape batch channels height width tensor := by
  obtain ⟨⟨strideB, strideC, strideH, length, fits⟩, batch_eq, channels_eq, height_eq, width_eq, bounded⟩ := shape
  have same := filled.same
  have length' := filled.length_eq
  generalize tensor.data = data at same length'
  subst same
  exact ⟨⟨strideB, strideC, strideH, length'.trans length, length'.symm ▸ fits⟩, batch_eq, channels_eq, height_eq,
    width_eq, bounded⟩

theorem assignEach_spec {value : Nat → Nat → Nat → Nat → Option α}
    (shape : HasShape batch channels height width target)
    (values : ∀ b c h w, b < batch → c < channels → h < height → w < width → ∃ assigned, value b c h w = some assigned) :
    ∃ next, assignEach batch channels height width value target = some next ∧
      HasShape batch channels height width next ∧
        ∀ b c h w, b < batch → c < channels → h < height → w < width → elementAt next b c h w = value b c h w := by
  obtain ⟨next, assigned, filled⟩ := assignEach_filled shape values
  have shape' := filled.hasShape shape
  refine ⟨next, assigned, shape', ?_⟩
  intro b c h w inB inC inH inW
  rw [elementAt, shape'.batch_eq, shape'.channels_eq, shape'.height_eq, shape'.width_eq,
    if_pos ⟨inB, inC, inH, inW⟩, filled.element _ (offset_lt inB inC inH inW), inOrder_offset value inC inH inW]

theorem loop_length {body : Tensor4D α → Nat → Option (Tensor4D α)} {last : Tensor4D α}
    (keeps : ∀ i now next, body now i = some next → next.data.length = now.data.length)
    (ran : forEach n tensor body = some last) : last.data.length = tensor.data.length := by
  refine forEach_keeps (I := fun now : Tensor4D α => now.data.length = tensor.data.length) rfl ?_ ran
  intro i now next length visited
  exact (keeps i now next visited).trans length

theorem assignEach_length {value : Nat → Nat → Nat → Nat → Option α} {next : Tensor4D α}
    (assigned : assignEach batch channels height width value target = some next) :
    next.data.length = target.data.length := by
  apply loop_length _ assigned
  intro b now next assigned
  apply loop_length _ assigned
  intro c now next assigned
  apply loop_length _ assigned
  intro h now next assigned
  apply loop_length _ assigned
  intro w now next assigned
  obtain ⟨value, _, assigned⟩ := Option.bind_eq_some_iff.mp assigned
  obtain ⟨data, stored, rfl⟩ := Option.map_eq_some_iff.mp assigned
  exact store_length stored

theorem new_length {value : α} (made : new batch channels height width value = some tensor) :
    tensor.data.length ≤ maxSize := by
  unfold new at made
  split at made
  · cases made
  · rename_i bounded
    cases made
    rw [List.length_replicate]
    exact Nat.le_of_not_lt bounded

theorem new_hasShape {value : α} (fits : batch * channels * height * width ≤ maxSize) :
    ∃ tensor, new batch channels height width value = some tensor ∧ HasShape batch channels height width tensor := by
  have size := sizeT_eq fits
  refine ⟨_, if_neg (Nat.not_lt.mpr (Nat.le_trans (Nat.le_of_eq size) fits)), ⟨?_, rfl, rfl, rfl, rfl, fits⟩⟩
  refine ⟨rfl, rfl, rfl, List.length_replicate, ?_⟩
  rw [List.length_replicate, size]
  exact fits

/-! ## Products -/

section Product

variable [Zero α] [Add α] [Mul α] {A B C result : Tensor4D α} {transA transB : Bool} {i j : Nat}

def opRows (tensor : Tensor4D α) (trans : Bool) : Nat := if trans then tensor.width else tensor.height

def opCols (tensor : Tensor4D α) (trans : Bool) : Nat := if trans then tensor.height else tensor.width

def opElement (tensor : Tensor4D α) (trans : Bool) (b c i j : Nat) : Option α :=
  elementAt tensor b c (if trans then j else i) (if trans then i else j)

def gemmSum (A : Tensor4D α) (transA : Bool) (B : Tensor4D α) (transB : Bool) (b c i j : Nat) : Option α :=
  forEach (opCols A transA) 0 fun sum k => do
    let x ← opElement A transA b c i k
    let y ← opElement B transB b c k j
    some (sum + x * y)

def ThrowsOrMultiplies (A : Tensor4D α) (transA : Bool) (B : Tensor4D α) (transB : Bool) (C : Tensor4D α) : Prop :=
  matmulGemm A transA B transB C = some .invalidArgument ∨
    ∃ result, matmulGemm A transA B transB C = some (.multiplied result) ∧ result.batch = A.batch ∧
      result.channels = A.channels ∧ result.height = opRows A transA ∧ result.width = opCols B transB ∧
        ∀ b c i j, b < A.batch → c < A.channels → i < opRows A transA → j < opCols B transB →
          ∃ value, elementAt result b c i j = some value ∧ gemmSum A transA B transB b c i j = some value

/-- The result fits into a vector, and unless it takes no products, `A` has all of its elements and `B` those of the
batches and the channels of `A`. -/
def Multipliable (A : Tensor4D α) (transA : Bool) (B : Tensor4D α) (transB : Bool) : Prop :=
  A.batch * A.channels * opRows A transA * opCols B transB ≤ maxSize ∧
    (A.batch * A.channels * opRows A transA * opCols B transB * opCols A transA = 0 ∨
      A.batch * A.channels * A.height * A.width ≤ A.data.length ∧ A.batch ≤ B.batch ∧ A.channels ≤ B.channels ∧
        ((A.batch - 1) * B.channels + A.channels) * (B.height * B.width) ≤ B.data.length)

theorem forEach_congr {σ : Type*} {n : Nat} {s : σ} {body body' : σ → Nat → Option σ}
    (same : ∀ i s, i < n → body s i = body' s i) : forEach n s body = forEach n s body' := by
  have within : ∀ i ∈ List.range n, i < n := fun i => List.mem_range.mp
  unfold forEach
  generalize List.range n = indices at within
  induction indices generalizing s with
  | nil => rfl
  | cons i rest ih =>
      rw [List.forall_mem_cons] at within
      rw [List.foldlM_cons, List.foldlM_cons, same i s within.1]
      exact bind_congr fun next => ih within.2

theorem forEach_visits {σ : Type*} {n : Nat} {s last : σ} {body : σ → Nat → Option σ}
    (ran : forEach n s body = some last) {i : Nat} (inside : i < n) : ∃ s next, body s i = some next := by
  have member := List.mem_range.mpr inside
  unfold forEach at ran
  generalize List.range n = indices at ran member
  induction indices generalizing s with
  | nil => cases member
  | cons first rest ih =>
      rw [List.foldlM_cons] at ran
      obtain ⟨next, visited, ran⟩ := Option.bind_eq_some_iff.mp ran
      rcases List.mem_cons.mp member with rfl | member
      · exact ⟨s, next, visited⟩
      · exact ih ran member

theorem matmulGemm_of_ne (different : opCols A transA ≠ opRows B transB) :
    matmulGemm A transA B transB C = some .invalidArgument := if_pos different

theorem matmulGemm_of_eq (same : opCols A transA = opRows B transB) : matmulGemm A transA B transB C =
    (outputContainer A C (opRows A transA) (opCols B transB)).bind fun C =>
      (assignEach A.batch A.channels (opRows A transA) (opCols B transB)
        (fun b c i j => accumulator A transA B transB (opCols A transA) b c i j) C).bind fun C =>
          some (.multiplied C) :=
  if_neg (not_not.mpr same)

omit [Add α] [Mul α] in
theorem outputContainer_hasShape (constructed : IsConstructed C) {rows cols : Nat}
    (fits : A.batch * A.channels * rows * cols ≤ maxSize) :
    ∃ target, outputContainer A C rows cols = some target ∧ HasShape A.batch A.channels rows cols target := by
  unfold outputContainer
  by_cases other : C.height ≠ rows ∨ C.width ≠ cols ∨ C.batch ≠ A.batch ∨ C.channels ≠ A.channels
  · rw [if_pos other]
    exact new_hasShape fits
  · rw [if_neg other]
    push Not at other
    exact ⟨C, rfl, constructed, other.2.2.1, other.2.2.2, other.1, other.2.1, fits⟩

omit [Add α] [Mul α] in
theorem outputContainer_length {target : Tensor4D α} (constructed : IsConstructed C) {rows cols : Nat}
    (made : outputContainer A C rows cols = some target) : target.data.length ≤ maxSize := by
  unfold outputContainer at made
  split at made
  · exact new_length made
  · cases made
    exact constructed.fits

theorem accumulator_eq (constructedA : IsConstructed A) (constructedB : IsConstructed B)
    (elements : ∀ k, k < opCols A transA →
      (∃ x, opElement A transA b c i k = some x) ∧ ∃ y, opElement B transB b c k j = some y) :
    accumulator A transA B transB (opCols A transA) b c i j = gemmSum A transA B transB b c i j ∧
      ∃ value, gemmSum A transA B transB b c i j = some value := by
  constructor
  · apply forEach_congr
    intro k sum inside
    obtain ⟨⟨x, foundX⟩, y, foundY⟩ := elements k inside
    rw [foundX, foundY, constructedA.atValue_eq foundX, constructedB.atValue_eq foundY]
  · have total : ∃ value, gemmSum A transA B transB b c i j = some value ∧ True := by
      refine forEach_total (I := fun _ _ => True) trivial ?_ fun _ _ => trivial
      intro k sum inside _
      obtain ⟨⟨x, foundX⟩, y, foundY⟩ := elements k inside
      refine ⟨sum + x * y, ?_, trivial⟩
      rw [foundX, foundY]
      rfl
    obtain ⟨value, summed, _⟩ := total
    exact ⟨value, summed⟩

omit [Zero α] [Add α] [Mul α] in
theorem opElement_of_reach {trans : Bool} (inB : b < batch) (inC : c < channels) (batches : batch ≤ tensor.batch)
    (below : channels ≤ tensor.channels)
    (reach : ((batch - 1) * tensor.channels + channels) * (tensor.height * tensor.width) ≤ tensor.data.length)
    (row : i < opRows tensor trans) (col : j < opCols tensor trans) :
    ∃ value, opElement tensor trans b c i j = some value := by
  have slice : ∀ h w, h < tensor.height → w < tensor.width →
      offset tensor.channels tensor.height tensor.width b c h w < tensor.data.length := by
    intro h w inH inW
    have earlier : b * tensor.channels + c < (batch - 1) * tensor.channels + channels := by
      have most : b * tensor.channels ≤ (batch - 1) * tensor.channels :=
        Nat.mul_le_mul_right _ (Nat.le_sub_one_of_lt inB)
      omega
    calc offset tensor.channels tensor.height tensor.width b c h w
        < ((batch - 1) * tensor.channels + channels) * tensor.height * tensor.width :=
          flat_lt (flat_lt earlier inH) inW
      _ ≤ tensor.data.length := by rwa [Nat.mul_assoc]
  have inB' := Nat.lt_of_lt_of_le inB batches
  have inC' := Nat.lt_of_lt_of_le inC below
  cases trans with
  | true => exact elementAt_of_lt inB' inC' col row (slice j i col row)
  | false => exact elementAt_of_lt inB' inC' row col (slice i j row col)

omit [Zero α] [Add α] [Mul α] in
theorem reach_of_opElement {trans : Bool} {value : α} (someB : 0 < batch) (someC : 0 < channels)
    (someRow : 0 < opRows tensor trans) (someCol : 0 < opCols tensor trans)
    (found : opElement tensor trans (batch - 1) (channels - 1) (opRows tensor trans - 1) (opCols tensor trans - 1) =
      some value) :
    batch ≤ tensor.batch ∧ channels ≤ tensor.channels ∧
      ((batch - 1) * tensor.channels + channels) * (tensor.height * tensor.width) ≤ tensor.data.length := by
  have last : 0 < tensor.height ∧ 0 < tensor.width ∧
      elementAt tensor (batch - 1) (channels - 1) (tensor.height - 1) (tensor.width - 1) = some value := by
    cases trans with
    | true => exact ⟨someCol, someRow, found⟩
    | false => exact ⟨someRow, someCol, found⟩
  obtain ⟨someH, someW, found⟩ := last
  obtain ⟨⟨inB, inC, _, _⟩, inside⟩ := elementAt_eq_some found
  refine ⟨by omega, by omega, ?_⟩
  rw [← offset_last someC someH someW]
  exact inside

theorem multiplies_of_multipliable (constructedA : IsConstructed A) (constructedB : IsConstructed B)
    (constructedC : IsConstructed C) (same : opCols A transA = opRows B transB)
    (multipliable : Multipliable A transA B transB) : ThrowsOrMultiplies A transA B transB C := by
  obtain ⟨fits, reaches⟩ := multipliable
  have elements : ∀ b c i j k, b < A.batch → c < A.channels → i < opRows A transA → j < opCols B transB →
      k < opCols A transA → (∃ x, opElement A transA b c i k = some x) ∧ ∃ y, opElement B transB b c k j = some y := by
    intro b c i j k inB inC row col inside
    rcases reaches with none | ⟨reachA, batches, below, reachB⟩
    · have positive : 0 < A.batch * A.channels * opRows A transA * opCols B transB * opCols A transA :=
        Nat.mul_pos (Nat.zero_lt_of_lt (offset_lt inB inC row col)) (Nat.zero_lt_of_lt inside)
      exact absurd none (Nat.ne_of_gt positive)
    · have reachA' : ((A.batch - 1) * A.channels + A.channels) * (A.height * A.width) ≤ A.data.length := by
        rwa [← Nat.succ_mul, Nat.succ_eq_add_one, Nat.sub_add_cancel (Nat.succ_le_of_lt (Nat.zero_lt_of_lt inB)),
          ← Nat.mul_assoc]
      exact ⟨opElement_of_reach inB inC (Nat.le_refl _) (Nat.le_refl _) reachA' row inside,
        opElement_of_reach inB inC batches below reachB (same ▸ inside) col⟩
  have sums : ∀ b c i j, b < A.batch → c < A.channels → i < opRows A transA → j < opCols B transB →
      accumulator A transA B transB (opCols A transA) b c i j = gemmSum A transA B transB b c i j ∧
        ∃ value, gemmSum A transA B transB b c i j = some value := fun b c i j inB inC row col =>
    accumulator_eq constructedA constructedB fun k inside => elements b c i j k inB inC row col inside
  obtain ⟨target, made, shape⟩ := outputContainer_hasShape constructedC fits
  obtain ⟨result, assigned, shape', element⟩ := assignEach_spec shape
    fun b c i j inB inC row col => (sums b c i j inB inC row col).1 ▸ (sums b c i j inB inC row col).2
  refine Or.inr ⟨result, ?_, shape'.batch_eq, shape'.channels_eq, shape'.height_eq, shape'.width_eq, ?_⟩
  · rw [matmulGemm_of_eq same, made, Option.bind_some, assigned, Option.bind_some]
  · intro b c i j inB inC row col
    obtain ⟨summed, value, found⟩ := sums b c i j inB inC row col
    exact ⟨value, (element b c i j inB inC row col).trans (summed.trans found), found⟩

theorem multipliable_of_multiplies (constructedC : IsConstructed C) (same : opCols A transA = opRows B transB)
    (multiplies : ThrowsOrMultiplies A transA B transB C) : Multipliable A transA B transB := by
  unfold ThrowsOrMultiplies at multiplies
  rw [matmulGemm_of_eq same] at multiplies
  rcases multiplies with threw | ⟨result, multiplied, batch_eq, channels_eq, height_eq, width_eq, elements⟩
  · obtain ⟨_, _, threw⟩ := Option.bind_eq_some_iff.mp threw
    obtain ⟨_, _, threw⟩ := Option.bind_eq_some_iff.mp threw
    cases threw
  · obtain ⟨target, made, multiplied⟩ := Option.bind_eq_some_iff.mp multiplied
    obtain ⟨result', assigned, done⟩ := Option.bind_eq_some_iff.mp multiplied
    cases done
    have bounded : result.data.length ≤ maxSize :=
      assignEach_length assigned ▸ outputContainer_length constructedC made
    have present : ∀ b c i j, b < result.batch → c < result.channels → i < result.height → j < result.width →
        ∃ value, elementAt result b c i j = some value := by
      rw [batch_eq, channels_eq, height_eq, width_eq]
      intro b c i j inB inC row col
      obtain ⟨value, found, _⟩ := elements b c i j inB inC row col
      exact ⟨value, found⟩
    have full := full_of_elements present
    rw [batch_eq, channels_eq, height_eq, width_eq] at full
    refine ⟨Nat.le_trans full bounded, ?_⟩
    by_cases none : A.batch * A.channels * opRows A transA * opCols B transB * opCols A transA = 0
    · exact Or.inl none
    · right
      simp only [Nat.mul_eq_zero, not_or] at none
      obtain ⟨⟨⟨⟨someB, someC⟩, someRow⟩, someCol⟩, someInner⟩ := none
      obtain ⟨value, _, summed⟩ := elements _ _ _ _ (Nat.sub_one_lt someB) (Nat.sub_one_lt someC)
        (Nat.sub_one_lt someRow) (Nat.sub_one_lt someCol)
      obtain ⟨_, _, visited⟩ := forEach_visits summed (Nat.sub_one_lt someInner)
      obtain ⟨x, foundX, visited⟩ := Option.bind_eq_some_iff.mp visited
      obtain ⟨y, foundY, _⟩ := Option.bind_eq_some_iff.mp visited
      have someB := Nat.pos_of_ne_zero someB
      have someC := Nat.pos_of_ne_zero someC
      obtain ⟨_, _, reachA⟩ := reach_of_opElement someB someC (Nat.pos_of_ne_zero someRow) (Nat.pos_of_ne_zero someInner)
        foundX
      rw [same] at someInner foundY
      obtain ⟨batches, below, reachB⟩ := reach_of_opElement someB someC (Nat.pos_of_ne_zero someInner)
        (Nat.pos_of_ne_zero someCol) foundY
      rw [← Nat.succ_mul, Nat.succ_eq_add_one, Nat.sub_add_cancel someB, ← Nat.mul_assoc] at reachA
      exact ⟨reachA, batches, below, reachB⟩

theorem gemm_throws_or_multiplies_iff (constructedA : IsConstructed A) (constructedB : IsConstructed B)
    (constructedC : IsConstructed C) : ThrowsOrMultiplies A transA B transB C ↔
      opCols A transA ≠ opRows B transB ∨ Multipliable A transA B transB := by
  by_cases same : opCols A transA = opRows B transB
  · rw [or_iff_right (not_not.mpr same)]
    constructor
    · exact multipliable_of_multiplies constructedC same
    · exact multiplies_of_multipliable constructedA constructedB constructedC same
  · exact iff_of_true (Or.inl (matmulGemm_of_ne same)) (Or.inl same)

theorem gemm_multiplies_rows :
    let row : Tensor4D Float32 :=
      { batch := 1, channels := 1, height := 1, width := 2, strideB := 2, strideC := 2, strideH := 2, data := [3, 4] }
    let empty : Tensor4D Float32 :=
      { batch := 0, channels := 0, height := 0, width := 0, strideB := 0, strideC := 0, strideH := 0, data := [] }
    ThrowsOrMultiplies row false row true empty := by
  intro row empty
  have constructed : IsConstructed row := ⟨rfl, rfl, rfl, rfl, by decide⟩
  have blank : IsConstructed empty := ⟨rfl, rfl, rfl, rfl, Nat.zero_le _⟩
  exact (gemm_throws_or_multiplies_iff constructed constructed blank).mpr (Or.inr ⟨by decide, Or.inr (by decide)⟩)

/-- The second batch of the second tensor is not there. -/
theorem gemm_reads_outside :
    let A : Tensor4D Float32 :=
      { batch := 2, channels := 1, height := 1, width := 1, strideB := 1, strideC := 1, strideH := 1, data := [1, 1] }
    let B : Tensor4D Float32 :=
      { batch := 1, channels := 1, height := 1, width := 1, strideB := 1, strideC := 1, strideH := 1, data := [1] }
    IsConstructed A ∧ IsConstructed B ∧ ¬ ThrowsOrMultiplies A false B false A := by
  intro A B
  refine ⟨⟨rfl, rfl, rfl, rfl, by decide⟩, ⟨rfl, rfl, rfl, rfl, by decide⟩, ?_⟩
  have outside : matmulGemm A false B false A = none := rfl
  rintro (threw | ⟨result, multiplied, _⟩)
  · rw [outside] at threw
    cases threw
  · rw [outside] at multiplied
    cases multiplied

end Product

end KnowledgeAcquisition.Proof.MachineLearning
