import KnowledgeAcquisition.MachineLearning.Conv2DLayer
import KnowledgeAcquisition.Proof.MachineLearning.Tensor4D
import Mathlib.Algebra.BigOperators.Ring.Finset

/-!
# Convolution

The windows start where the convolution says, although their start is computed without a sign, and `forward` sums them
up as long as the elements of its result can be counted.
-/

namespace KnowledgeAcquisition.Proof.MachineLearning
open KnowledgeAcquisition.MachineLearning Library Tensor4D Conv2DLayer
open Tensor2D (forEach store)

variable {α : Type*} [CommRing α] {layer : Conv2DLayer α} {input : Tensor4D α}

def paddedAt (input : Tensor4D α) (b ic : Nat) (y x : Int) : α :=
  if 0 ≤ y ∧ 0 ≤ x then (elementAt input b ic y.toNat x.toNat).getD 0 else 0

def convolution (layer : Conv2DLayer α) (input : Tensor4D α) (b oc oh ow : Nat) : α :=
  (elementAt layer.bias 0 oc 0 0).getD 0 +
    ∑ ic ∈ Finset.range layer.inChannels, ∑ kh ∈ Finset.range layer.kernelSize,
      ∑ kw ∈ Finset.range layer.kernelSize, (elementAt layer.weights oc ic kh kw).getD 0 *
        paddedAt input b ic (oh * layer.stride + kh - layer.padding) (ow * layer.stride + kw - layer.padding)

def sideOf (layer : Conv2DLayer α) (side : Nat) : Nat :=
  (side + 2 * layer.padding - layer.kernelSize) / layer.stride + 1

def Covered (layer : Conv2DLayer α) (input : Tensor4D α) (y x : Nat) : Prop :=
  (y < input.height ∧ x < input.width) ∧ ∃ oh ow kh kw, (oh < sideOf layer input.height ∧ kh < layer.kernelSize ∧
    oh * layer.stride + kh = y + layer.padding) ∧ ow < sideOf layer input.width ∧ kw < layer.kernelSize ∧
      ow * layer.stride + kw = x + layer.padding

def WithinInput (layer : Conv2DLayer α) (input : Tensor4D α) : Prop :=
  ∀ b oc ic y x, b < input.batch → oc < layer.outChannels → ic < layer.inChannels → Covered layer input y x →
    ∃ value, elementAt input b ic y x = some value

def Convolves (layer : Conv2DLayer α) (input : Tensor4D α) : Prop :=
  WithinInput layer input ∧
    ∃ output after, layer.forward input = some (output, after) ∧ output.batch = input.batch ∧
      output.channels = layer.outChannels ∧ output.height = sideOf layer input.height ∧
        output.width = sideOf layer input.width ∧
          ∀ b oc oh ow, b < input.batch → oc < layer.outChannels → oh < sideOf layer input.height →
            ow < sideOf layer input.width → elementAt output b oc oh ow = some (convolution layer input b oc oh ow)

/-- The result fits into a vector, and so does the input, unless nothing of it is covered. -/
def Convolvable (layer : Conv2DLayer α) (input : Tensor4D α) : Prop :=
  input.batch * layer.outChannels * sideOf layer input.height * sideOf layer input.width ≤ maxSize ∧
    (input.batch * layer.outChannels * layer.inChannels = 0 ∨ (∀ y x, ¬ Covered layer input y x) ∨
      input.batch * layer.inChannels * input.height * input.width ≤ maxSize)

structure Accepts (layer : Conv2DLayer α) (input : Tensor4D α) : Prop where
  weights : HasShape layer.outChannels layer.inChannels layer.kernelSize layer.kernelSize layer.weights
  bias : HasShape 1 layer.outChannels 1 1 layer.bias
  constructed : IsConstructed input
  channels_eq : input.channels = layer.inChannels
  stride_pos : 0 < layer.stride
  padding_lt : layer.padding < 2 ^ 31
  height_lt : input.height < 2 ^ 31
  width_lt : input.width < 2 ^ 31
  height_covered : layer.kernelSize ≤ input.height + 2 * layer.padding
  width_covered : layer.kernelSize ≤ input.width + 2 * layer.padding

section Window

variable {side o k : Nat}

omit [CommRing α] in
theorem outSize_eq (small : side < 2 ^ 31) (padding : layer.padding < 2 ^ 31)
    (covered : layer.kernelSize ≤ side + 2 * layer.padding) : layer.outSize side = sideOf layer side := by
  have difference : subT (sizeT (side + sizeT (2 * layer.padding))) layer.kernelSize =
      side + 2 * layer.padding - layer.kernelSize := by
    unfold subT sizeT
    omega
  have quotient := Nat.div_le_self (side + 2 * layer.padding - layer.kernelSize) layer.stride
  rw [outSize, difference, sideOf]
  apply Nat.mod_eq_of_lt
  omega

omit [CommRing α] in
theorem window_eq (small : side < 2 ^ 31) (padding : layer.padding < 2 ^ 31)
    (covered : layer.kernelSize ≤ side + 2 * layer.padding) (inside : o < sideOf layer side) (within : k < layer.kernelSize) :
    longLong (sizeT (layer.windowStart o + k)) = o * layer.stride + k - layer.padding := by
  have bound : o * layer.stride ≤ side + 2 * layer.padding - layer.kernelSize :=
    Nat.le_trans (Nat.mul_le_mul_right _ (Nat.le_of_lt_succ inside)) (Nat.div_mul_le_self _ _)
  rw [windowStart, ← Int.natCast_mul]
  generalize o * layer.stride = start at bound ⊢
  unfold longLong subT sizeT
  split
  · omega
  · omega

theorem longLong_eq (small : side < 2 ^ 31) : longLong side = side := if_pos (by omega)

end Window

theorem forEach_sum {n : Nat} {s : α} {body : α → Nat → Option α} {f : Nat → α}
    (adds : ∀ i s, i < n → body s i = some (s + f i)) : forEach n s body = some (s + ∑ i ∈ Finset.range n, f i) := by
  have total : ∃ last, forEach n s body = some last ∧ last = s + ∑ i ∈ Finset.range n, f i := by
    refine forEach_total (I := fun i now => now = s + ∑ i ∈ Finset.range i, f i) ?_ ?_ fun _ inv => inv
    · rw [Finset.range_zero, Finset.sum_empty, add_zero]
    · rintro i now inside rfl
      exact ⟨_, adds i _ inside, by rw [Finset.sum_range_succ, add_assoc]⟩
  obtain ⟨last, ran, rfl⟩ := total
  exact ran

theorem window_element (accepts : Accepts layer input) (within : WithinInput layer input) {b oc oh ow ic kh kw : Nat} (inB : b < input.batch)
    (inOc : oc < layer.outChannels) (inOh : oh < sideOf layer input.height) (inOw : ow < sideOf layer input.width)
    (inIc : ic < layer.inChannels) (inKh : kh < layer.kernelSize) (inKw : kw < layer.kernelSize) (sum : α) :
    (let currH := longLong (sizeT (layer.windowStart oh + kh))
      let currW := longLong (sizeT (layer.windowStart ow + kw))
      if 0 ≤ currH ∧ currH < longLong input.height ∧ 0 ≤ currW ∧ currW < longLong input.width then do
        let x ← input.atValue b ic currH.toNat currW.toNat
        let y ← layer.weights.atValue oc ic kh kw
        some (sum + x * y)
      else some sum) =
    some (sum + (elementAt layer.weights oc ic kh kw).getD 0 *
      paddedAt input b ic (oh * layer.stride + kh - layer.padding) (ow * layer.stride + kw - layer.padding)) := by
  have row := window_eq accepts.height_lt accepts.padding_lt accepts.height_covered inOh inKh
  have col := window_eq accepts.width_lt accepts.padding_lt accepts.width_covered inOw inKw
  simp only [row, col, longLong_eq accepts.height_lt, longLong_eq accepts.width_lt]
  have covered : ∀ y x : Nat, y < input.height → x < input.width → (oh * layer.stride + kh - layer.padding : Int) = y →
      (ow * layer.stride + kw - layer.padding : Int) = x → Covered layer input y x := by
    intro y x inH inW y_eq x_eq
    rw [← Int.natCast_mul] at y_eq x_eq
    exact ⟨⟨inH, inW⟩, oh, ow, kh, kw, ⟨inOh, inKh, by omega⟩, inOw, inKw, by omega⟩
  generalize (oh * layer.stride + kh - layer.padding : Int) = y at covered ⊢
  generalize (ow * layer.stride + kw - layer.padding : Int) = x at covered ⊢
  by_cases inside : 0 ≤ y ∧ y < input.height ∧ 0 ≤ x ∧ x < input.width
  · have here := covered y.toNat x.toNat (by omega) (by omega) (Int.toNat_of_nonneg inside.1).symm
      (Int.toNat_of_nonneg inside.2.2.1).symm
    obtain ⟨value, found⟩ := within b oc ic _ _ inB inOc inIc here
    obtain ⟨weight, weighed⟩ := accepts.weights.element inOc inIc inKh inKw
    rw [if_pos inside, accepts.constructed.atValue_eq found, accepts.weights.constructed.atValue_eq weighed, weighed,
      paddedAt, if_pos ⟨inside.1, inside.2.2.1⟩, found, Option.getD_some, Option.getD_some, mul_comm weight]
    rfl
  · have nothing : paddedAt input b ic y x = 0 := by
      unfold paddedAt
      split
      · have outside : ¬ (b < input.batch ∧ ic < input.channels ∧ y.toNat < input.height ∧ x.toNat < input.width) := by
          omega
        rw [elementAt, if_neg outside, Option.getD_none]
      · rfl
    rw [if_neg inside, nothing, mul_zero, add_zero]

theorem windowSum_eq (accepts : Accepts layer input) (within : WithinInput layer input) {b oc oh ow : Nat} (inB : b < input.batch)
    (inOc : oc < layer.outChannels) (inOh : oh < sideOf layer input.height) (inOw : ow < sideOf layer input.width) :
    layer.windowSum input b oc oh ow = some (∑ ic ∈ Finset.range layer.inChannels,
      ∑ kh ∈ Finset.range layer.kernelSize, ∑ kw ∈ Finset.range layer.kernelSize,
        (elementAt layer.weights oc ic kh kw).getD 0 *
          paddedAt input b ic (oh * layer.stride + kh - layer.padding) (ow * layer.stride + kw - layer.padding)) := by
  refine (forEach_sum ?_).trans (congrArg some (zero_add _))
  intro ic sum inIc
  apply forEach_sum
  intro kh sum inKh
  apply forEach_sum
  intro kw sum inKw
  exact window_element accepts within inB inOc inOh inOw inIc inKh inKw sum

/-! ## The result -/

theorem forward_eq (stride : 0 < layer.stride) : layer.forward input =
    (Tensor4D.new input.batch layer.outChannels (layer.outSize input.height) (layer.outSize input.width) 0).bind
      fun output => (assignEach input.batch layer.outChannels (layer.outSize input.height) (layer.outSize input.width)
        (fun b oc oh ow => (layer.windowSum input b oc oh ow).bind fun sum =>
          (layer.bias.atValue 0 oc 0 0).bind fun bias => some (sum + bias)) output).bind
        fun output => some (output, { layer with inputCache := input }) :=
  if_neg (Nat.ne_of_gt stride)

omit [CommRing α] in
/-- The last image of an input whose number of elements wraps around starts far behind its data. -/
theorem count_le {y x channels : Nat} (constructed : IsConstructed input) (channels_eq : input.channels = channels)
    (height_lt : input.height < 2 ^ 31) (width_lt : input.width < 2 ^ 31) (someB : 0 < input.batch)
    (someIc : 0 < channels)
    (inside : offset input.channels input.height input.width (input.batch - 1) (channels - 1) y x < input.data.length) :
    input.batch * channels * input.height * input.width ≤ maxSize := by
  have image : input.height * input.width < 2 ^ 62 := by
    calc input.height * input.width < 2 ^ 31 * 2 ^ 31 := Nat.mul_lt_mul'' height_lt width_lt
      _ = 2 ^ 62 := rfl
  have all : input.batch * channels * input.height * input.width ≤
      offset input.channels input.height input.width (input.batch - 1) (channels - 1) y x +
        input.height * input.width := by
    obtain ⟨b, batch_eq⟩ := Nat.exists_eq_succ_of_ne_zero (Nat.ne_of_gt someB)
    obtain ⟨c, rfl⟩ := Nat.exists_eq_succ_of_ne_zero (Nat.ne_of_gt someIc)
    rw [channels_eq, batch_eq, offset]
    simp only [Nat.succ_eq_add_one, Nat.add_sub_cancel]
    calc (b + 1) * (c + 1) * input.height * input.width
        = (b * (c + 1) + c) * input.height * input.width + input.height * input.width := by ring
      _ ≤ ((b * (c + 1) + c) * input.height + y) * input.width + x + input.height * input.width := by
          apply Nat.add_le_add_right
          apply Nat.le_add_right_of_le
          exact Nat.mul_le_mul_right _ (Nat.le_add_right _ y)
  have bounded := constructed.fits
  have length := constructed.length_eq
  rw [channels_eq] at length
  have small : sizeT (input.batch * channels * input.height * input.width) =
      input.batch * channels * input.height * input.width := by
    apply Nat.mod_eq_of_lt
    unfold maxSize at bounded
    omega
  rw [← small, ← length]
  exact bounded

omit [CommRing α] in
theorem withinInput_iff (accepts : Accepts layer input) : WithinInput layer input ↔
    input.batch * layer.outChannels * layer.inChannels = 0 ∨ (∀ y x, ¬ Covered layer input y x) ∨
      input.batch * layer.inChannels * input.height * input.width ≤ maxSize := by
  constructor
  · intro within
    by_cases none : input.batch * layer.outChannels * layer.inChannels = 0
    · exact Or.inl none
    · right
      by_cases some_covered : ∃ y x, Covered layer input y x
      · right
        simp only [Nat.mul_eq_zero, not_or] at none
        obtain ⟨⟨someB, someOc⟩, someIc⟩ := none
        obtain ⟨y, x, covered⟩ := some_covered
        obtain ⟨value, found⟩ := within _ _ _ y x (Nat.sub_one_lt someB) (Nat.pos_of_ne_zero someOc)
          (Nat.sub_one_lt someIc) covered
        have inside := (elementAt_eq_some found).2
        exact count_le accepts.constructed accepts.channels_eq accepts.height_lt accepts.width_lt
          (Nat.pos_of_ne_zero someB) (Nat.pos_of_ne_zero someIc) inside
      · left
        intro y x covered
        exact some_covered ⟨y, x, covered⟩
  · rintro (none | uncovered | fits) b oc ic y x inB inOc inIc covered
    · have positive := Nat.mul_pos (Nat.mul_pos (Nat.zero_lt_of_lt inB) (Nat.zero_lt_of_lt inOc)) (Nat.zero_lt_of_lt inIc)
      exact absurd none (Nat.ne_of_gt positive)
    · exact absurd covered (uncovered y x)
    · have shape : HasShape input.batch layer.inChannels input.height input.width input :=
        ⟨accepts.constructed, rfl, accepts.channels_eq, rfl, rfl, fits⟩
      exact shape.element inB inIc covered.1.1 covered.1.2

theorem convolves_of_fits (accepts : Accepts layer input) (within : WithinInput layer input)
    (fits : input.batch * layer.outChannels * sideOf layer input.height * sideOf layer input.width ≤ maxSize) :
    Convolves layer input := by
  have height := outSize_eq accepts.height_lt accepts.padding_lt accepts.height_covered
  have width := outSize_eq accepts.width_lt accepts.padding_lt accepts.width_covered
  have values : ∀ b oc oh ow, b < input.batch → oc < layer.outChannels → oh < sideOf layer input.height →
      ow < sideOf layer input.width → ((layer.windowSum input b oc oh ow).bind fun sum =>
        (layer.bias.atValue 0 oc 0 0).bind fun bias => some (sum + bias)) = some (convolution layer input b oc oh ow) := by
    intro b oc oh ow inB inOc inOh inOw
    obtain ⟨bias, found⟩ := accepts.bias.element Nat.one_pos inOc Nat.one_pos Nat.one_pos
    rw [windowSum_eq accepts within inB inOc inOh inOw, accepts.bias.constructed.atValue_eq found, Option.bind_some,
      Option.bind_some, convolution, found, Option.getD_some, add_comm]
  obtain ⟨blank, made, shape⟩ := @new_hasShape α _ _ _ _ 0 fits
  obtain ⟨output, assigned, shape', element⟩ := assignEach_spec shape
    fun b oc oh ow inB inOc inOh inOw => ⟨_, values b oc oh ow inB inOc inOh inOw⟩
  refine ⟨within, output, { layer with inputCache := input }, ?_, shape'.batch_eq, shape'.channels_eq, shape'.height_eq,
    shape'.width_eq, ?_⟩
  · rw [forward_eq accepts.stride_pos, height, width, made, Option.bind_some, assigned, Option.bind_some]
  · intro b oc oh ow inB inOc inOh inOw
    exact (element b oc oh ow inB inOc inOh inOw).trans (values b oc oh ow inB inOc inOh inOw)

theorem fits_of_convolves (accepts : Accepts layer input) (convolves : Convolves layer input) :
    input.batch * layer.outChannels * sideOf layer input.height * sideOf layer input.width ≤ maxSize := by
  obtain ⟨_, output, after, forward, batch_eq, channels_eq, height_eq, width_eq, elements⟩ := convolves
  rw [forward_eq accepts.stride_pos] at forward
  obtain ⟨blank, made, forward⟩ := Option.bind_eq_some_iff.mp forward
  obtain ⟨output', assigned, done⟩ := Option.bind_eq_some_iff.mp forward
  cases done
  have bounded : output.data.length ≤ maxSize := assignEach_length assigned ▸ new_length made
  have present : ∀ b oc oh ow, b < output.batch → oc < output.channels → oh < output.height → ow < output.width →
      ∃ value, elementAt output b oc oh ow = some value := by
    rw [batch_eq, channels_eq, height_eq, width_eq]
    intro b oc oh ow inB inOc inOh inOw
    exact ⟨_, elements b oc oh ow inB inOc inOh inOw⟩
  have full := full_of_elements present
  rw [batch_eq, channels_eq, height_eq, width_eq] at full
  exact Nat.le_trans full bounded

theorem forward_convolves_iff (accepts : Accepts layer input) : Convolves layer input ↔ Convolvable layer input := by
  constructor
  · intro convolves
    exact ⟨fits_of_convolves accepts convolves, (withinInput_iff accepts).mp convolves.1⟩
  · rintro ⟨fits, reaches⟩
    exact convolves_of_fits accepts ((withinInput_iff accepts).mpr reaches) fits

theorem forward_convolves_padded :
    let layer : Conv2DLayer Int :=
      { inChannels := 1
        outChannels := 1
        kernelSize := 2
        stride := 2
        padding := 1
        weights := { batch := 1, channels := 1, height := 2, width := 2, strideB := 4, strideC := 4, strideH := 2
                     data := [1, 2, 3, 4] }
        bias := { batch := 1, channels := 1, height := 1, width := 1, strideB := 1, strideC := 1, strideH := 1
                  data := [5] }
        inputCache := { batch := 0, channels := 0, height := 0, width := 0, strideB := 0, strideC := 0, strideH := 0
                        data := [] } }
    let input : Tensor4D Int :=
      { batch := 1, channels := 1, height := 2, width := 2, strideB := 4, strideC := 4, strideH := 2
        data := [6, 7, 8, 9] }
    Convolves layer input := by
  intro layer input
  have weights : HasShape 1 1 2 2 layer.weights :=
    ⟨⟨rfl, rfl, rfl, rfl, by decide⟩, rfl, rfl, rfl, rfl, by decide⟩
  have bias : HasShape 1 1 1 1 layer.bias := ⟨⟨rfl, rfl, rfl, rfl, by decide⟩, rfl, rfl, rfl, rfl, by decide⟩
  have constructed : IsConstructed input := ⟨rfl, rfl, rfl, rfl, by decide⟩
  have convolvable : Convolvable layer input := ⟨by decide, Or.inr (Or.inr (by decide))⟩
  exact (forward_convolves_iff
    ⟨weights, bias, constructed, rfl, by decide, by decide, by decide, by decide, by decide, by decide⟩).mpr convolvable

/-- The result has `2 ^ 64` elements, and the vector for it none. -/
theorem forward_wraps :
    let layer : Conv2DLayer Int :=
      { inChannels := 1
        outChannels := 16
        kernelSize := 2
        stride := 1
        padding := 536870912
        weights := { batch := 16, channels := 1, height := 2, width := 2, strideB := 4, strideC := 4, strideH := 2
                     data := List.replicate 64 1 }
        bias := { batch := 1, channels := 16, height := 1, width := 1, strideB := 16, strideC := 1, strideH := 1
                  data := List.replicate 16 0 }
        inputCache := { batch := 0, channels := 0, height := 0, width := 0, strideB := 0, strideC := 0, strideH := 0
                        data := [] } }
    let input : Tensor4D Int :=
      { batch := 1, channels := 1, height := 1, width := 1, strideB := 1, strideC := 1, strideH := 1, data := [1] }
    Accepts layer input ∧ ¬ Convolves layer input := by
  intro layer input
  have weights : HasShape 16 1 2 2 layer.weights :=
    ⟨⟨rfl, rfl, rfl, rfl, by decide⟩, rfl, rfl, rfl, rfl, by decide⟩
  have bias : HasShape 1 16 1 1 layer.bias := ⟨⟨rfl, rfl, rfl, rfl, by decide⟩, rfl, rfl, rfl, rfl, by decide⟩
  have constructed : IsConstructed input := ⟨rfl, rfl, rfl, rfl, by decide⟩
  have accepts : Accepts layer input :=
    ⟨weights, bias, constructed, rfl, by decide, by decide, by decide, by decide, by decide, by decide⟩
  refine ⟨accepts, ?_⟩
  intro convolves
  exact absurd (fits_of_convolves accepts convolves) (by decide)

end KnowledgeAcquisition.Proof.MachineLearning
