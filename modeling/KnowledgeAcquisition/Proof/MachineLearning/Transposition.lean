import KnowledgeAcquisition.Proof.MachineLearning.Matmul
import Mathlib.Algebra.Order.Ring.Int

/-!
# What a transposed tensor gives away

`transpose` swaps the sizes and sets a flag. `at` takes the sizes of a flagged tensor for those of the untransposed one,
and the operations on each element leave out the flag.
-/

namespace KnowledgeAcquisition.Proof.MachineLearning
open KnowledgeAcquisition.MachineLearning Library Tensor2D

variable {α : Type*} {tensor : Tensor2D α} {r c : Nat}

def access (tensor : Tensor2D α) (r c : Nat) : Option (Option α) := (tensor.atIndex r c).map fun i => tensor.data[i]?

structure Lawful (tensor : Tensor2D α) : Prop where
  throws : ∀ r c, access tensor r c = none ↔ tensor.rows ≤ r ∨ tensor.cols ≤ c
  reads : ∀ r c, r < tensor.rows → c < tensor.cols →
    ∃ value, access tensor r c = some (some value) ∧ tensor.call r c = some value
  transposed : ∀ r c, access tensor.transpose r c = access tensor c r

/-- For a transposed tensor `at` compares the row with the columns and the column with the rows. -/
theorem access_eq_none_iff (tensor : Tensor2D α) (r c : Nat) : access tensor r c = none ↔
    if tensor.isTransposed then tensor.rows ≤ c ∨ tensor.cols ≤ r else tensor.rows ≤ r ∨ tensor.cols ≤ c := by
  unfold access atIndex
  cases tensor.isTransposed with
  | true => simp only [if_true, ge_iff_le, Option.map_eq_none_iff, ite_eq_left_iff, reduceCtorEq, imp_false, not_not]
  | false =>
      simp only [Bool.false_eq_true, if_false, ge_iff_le, Option.map_eq_none_iff, ite_eq_left_iff, reduceCtorEq, imp_false,
        not_not]

theorem access_of_some (found : access tensor r c ≠ none) : access tensor r c = some (tensor.call r c) := by
  have inside := (access_eq_none_iff tensor r c).not.mp found
  unfold access atIndex call index
  cases transposed : tensor.isTransposed with
  | true =>
      rw [transposed, if_pos rfl] at inside
      simp only [if_true, ge_iff_le, inside, if_false, Option.map_some]
  | false =>
      rw [transposed, if_neg Bool.false_ne_true] at inside
      simp only [Bool.false_eq_true, ge_iff_le, inside, if_false, Option.map_some]

theorem index_transpose (tensor : Tensor2D α) (r c : Nat) : tensor.transpose.index r c = tensor.index c r := by
  unfold index Tensor2D.transpose
  cases tensor.isTransposed with
  | true => rfl
  | false => rfl

theorem lawful_of_throws (source : FromRowMajor tensor)
    (throws : ∀ r c, access tensor r c = none ↔ tensor.rows ≤ r ∨ tensor.cols ≤ c)
    (transposed : ∀ r c, access tensor.transpose r c = none ↔ tensor.cols ≤ r ∨ tensor.rows ≤ c) : Lawful tensor := by
  refine ⟨throws, ?_, ?_⟩
  · intro r c row col
    have found : access tensor r c ≠ none := (throws r c).not.mpr (by omega)
    have inside : tensor.index r c < tensor.data.length := by
      rw [source.index_eq row col, source.length_eq]
      exact flat_bound row col
    have read : tensor.call r c = some tensor.data[tensor.index r c] := List.getElem?_eq_getElem inside
    exact ⟨_, (access_of_some found).trans (congrArg some read), read⟩
  · intro r c
    by_cases outside : tensor.cols ≤ r ∨ tensor.rows ≤ c
    · rw [(transposed r c).mpr outside, (throws c r).mpr outside.symm]
    · rw [access_of_some ((transposed r c).not.mpr outside), access_of_some ((throws c r).not.mpr (by omega)), call,
        index_transpose]
      rfl

theorem lawful_iff (source : FromRowMajor tensor) :
    Lawful tensor ↔ tensor.rows = tensor.cols ∨ tensor.rows = 0 ∨ tensor.cols = 0 := by
  constructor
  · intro lawful
    cases flag : tensor.isTransposed with
    | true =>
        have first := (access_eq_none_iff tensor 0 tensor.rows).symm.trans (lawful.throws 0 tensor.rows)
        have second := (access_eq_none_iff tensor tensor.cols 0).symm.trans (lawful.throws tensor.cols 0)
        rw [flag, if_pos rfl] at first second
        omega
    | false =>
        have throws : ∀ r c, access tensor.transpose r c = none ↔ access tensor c r = none := by
          intro r c
          rw [lawful.transposed]
        simp only [access_eq_none_iff, Tensor2D.transpose, flag, Bool.not_false, if_true, Bool.false_eq_true,
          if_false] at throws
        have first := throws 0 tensor.cols
        have second := throws tensor.rows 0
        omega
  · intro square
    apply lawful_of_throws source
    · intro r c
      rw [access_eq_none_iff]
      split
      · omega
      · exact Iff.rfl
    · intro r c
      rw [access_eq_none_iff]
      unfold Tensor2D.transpose
      dsimp only
      split
      · omega
      · omega

theorem lawful_square : Lawful (Tensor2D.transpose ({ rows := 2, cols := 2, data := [1, 2, 3, 4] } : Tensor2D Int)) :=
  (lawful_iff (.transpose (.rowMajor 2 2 [1, 2, 3, 4] rfl (by decide)))).mpr (Or.inl rfl)

theorem at_refuses_row :
    let tensor : Tensor2D Int := { rows := 2, cols := 3, data := [1, 2, 3, 4, 5, 6] }
    FromRowMajor tensor.transpose ∧ ¬ Lawful tensor.transpose := by
  intro tensor
  refine ⟨.transpose (.rowMajor 2 3 _ rfl (by decide)), ?_⟩
  intro lawful
  have throws := (lawful.throws 2 0).mp rfl
  exact absurd throws (by decide)

/-! ## Operations on each element -/

variable {rows cols : Nat}

def Gives (outcome : Option (Tensor2D α)) (rows cols : Nat) (f : Nat → Nat → α) : Prop :=
  ∃ result, outcome = some result ∧ result.rows = rows ∧ result.cols = cols ∧
    ∀ i j, i < rows → j < cols → result.call i j = some (f i j)

theorem assignLoop_spec {data : List α} {value : Nat → Option α} {v : Nat → α}
    (values : ∀ k, k < data.length → value k = some (v k)) :
    ∃ last, (forEach data.length data fun data k => do
        let assigned ← value k
        store data k assigned) = some last ∧ last.length = data.length ∧
      ∀ k, k < data.length → last[k]? = some (v k) := by
  refine forEach_total (I := fun i (now : List α) => now.length = data.length ∧ ∀ k, k < i → now[k]? = some (v k))
    ⟨rfl, fun k inside => absurd inside (Nat.not_lt_zero k)⟩ ?_ fun _ inv => inv
  rintro i now inside ⟨length, assigned⟩
  have inside' : i < now.length := length ▸ inside
  refine ⟨now.set i (v i), ?_, ?_, ?_⟩
  · rw [values i inside]
    exact if_pos inside'
  · rw [List.length_set, length]
  · intro k early
    rcases Nat.lt_succ_iff_lt_or_eq.mp early with before | rfl
    · rw [List.getElem?_set_ne (Nat.ne_of_gt before), assigned k before]
    · rw [List.getElem?_set_self inside']

variable [Ring α] [LinearOrder α] {A G : Tensor2D α}

def stored (tensor : Tensor2D α) (r c : Nat) : α := tensor.data.getD (r * tensor.cols + c) 0

omit [LinearOrder α] in
theorem gives_assignData_iff {value : Nat → Option α} {v : Nat → α} {f : Nat → Nat → α} (source : FromRowMajor tensor)
    (values : ∀ k, k < tensor.data.length → value k = some (v k)) :
    Gives (tensor.assignData value) tensor.rows tensor.cols f ↔
      ∀ i j, i < tensor.rows → j < tensor.cols → v (i * tensor.cols + j) = f i j := by
  have size : tensor.rows * tensor.cols ≤ maxSize := source.length_eq ▸ source.fits
  have small : ∀ {i j}, i < tensor.rows → j < tensor.cols → i * tensor.cols + j < tensor.data.length := by
    intro i j row col
    rw [source.length_eq]
    exact flat_lt row col
  have blank : (List.replicate (sizeT (tensor.rows * tensor.cols)) (0 : α)).length = tensor.data.length := by
    rw [List.length_replicate, sizeT_eq size, source.length_eq]
  obtain ⟨last, assigned, length, elements⟩ := @assignLoop_spec α _ _ _ (blank.symm ▸ values)
  rw [blank] at assigned elements
  have result : tensor.assignData value = some { rows := tensor.rows, cols := tensor.cols, data := last } := by
    rw [assignData, new, if_neg (Nat.not_lt.mpr ((sizeT_eq size).symm ▸ size))]
    exact congrArg (Option.bind · _) assigned
  have call : ∀ {i j}, i < tensor.rows → j < tensor.cols →
      ({ rows := tensor.rows, cols := tensor.cols, data := last } : Tensor2D α).call i j =
        some (v (i * tensor.cols + j)) := by
    intro i j row col
    have fits := Nat.le_trans (Nat.le_of_lt (small row col)) source.fits
    rw [Tensor2D.call, index, if_neg Bool.false_ne_true, sizeT_eq fits, elements _ (small row col)]
  constructor
  · rintro ⟨result', same, rows, cols, calls⟩ i j row col
    cases result.symm.trans same
    exact Option.some.inj ((call row col).symm.trans (calls i j row col))
  · intro same
    refine ⟨_, result, rfl, rfl, ?_⟩
    intro i j row col
    rw [call row col, same i j row col]

omit [LinearOrder α] in
theorem data_eq {k : Nat} (inside : k < tensor.data.length) : tensor.data[k]? = some (tensor.data.getD k 0) := by
  rw [List.getD_eq_getElem?_getD, List.getElem?_eq_getElem inside, Option.getD_some]

theorem gives_relu_iff {f : Nat → Nat → α} (source : FromRowMajor A) : Gives A.relu A.rows A.cols f ↔
    ∀ i j, i < A.rows → j < A.cols → max (stored A i j) 0 = f i j := by
  refine (gives_assignData_iff source ?_ (v := fun k => max (A.data.getD k 0) 0))
  intro k inside
  rw [data_eq inside]
  by_cases positive : A.data.getD k 0 > 0
  · simp only [Option.bind_eq_bind, Option.bind_some, positive, if_true, max_eq_left (le_of_lt positive)]
  · simp only [Option.bind_eq_bind, Option.bind_some, positive, if_false, max_eq_right (not_lt.mp positive)]

omit [LinearOrder α] in
theorem gives_sigmoid_iff {logistic : α → α} {f : Nat → Nat → α} (source : FromRowMajor A) :
    Gives (A.sigmoid logistic) A.rows A.cols f ↔
      ∀ i j, i < A.rows → j < A.cols → logistic (stored A i j) = f i j := by
  refine (gives_assignData_iff source ?_ (v := fun k => logistic (A.data.getD k 0)))
  intro k inside
  rw [data_eq inside]
  rfl

section Backward

variable (sourceA : FromRowMajor A) (sourceG : FromRowMajor G) (rows_eq : A.rows = G.rows) (cols_eq : A.cols = G.cols)

include sourceA sourceG rows_eq cols_eq

omit [Ring α] [LinearOrder α] in
theorem backward_shapes : ¬ (A.rows ≠ G.rows ∨ A.cols ≠ G.cols) ∧ A.data.length = G.data.length := by
  rw [sourceA.length_eq, sourceG.length_eq, rows_eq, cols_eq]
  exact ⟨fun other => other.elim (absurd rfl) (absurd rfl), rfl⟩

theorem gives_reluBackward_iff {f : Nat → Nat → α} : Gives (A.reluBackward G) A.rows A.cols f ↔
    ∀ i j, i < A.rows → j < A.cols → (if stored A i j > 0 then stored G i j else 0) = f i j := by
  obtain ⟨shapes, length⟩ := backward_shapes sourceA sourceG rows_eq cols_eq
  rw [reluBackward, if_neg shapes]
  simp only [stored, ← cols_eq]
  refine gives_assignData_iff sourceA ?_ (v := fun k => if A.data.getD k 0 > 0 then G.data.getD k 0 else 0)
  intro k inside
  rw [data_eq inside, data_eq (length ▸ inside)]
  exact (apply_ite some _ _ _).symm

omit [LinearOrder α] in
theorem gives_sigmoidBackward_iff {logistic : α → α} {f : Nat → Nat → α} :
    Gives (A.sigmoidBackward logistic G) A.rows A.cols f ↔ ∀ i j, i < A.rows → j < A.cols →
      stored G i j * logistic (stored A i j) * (1 - logistic (stored A i j)) = f i j := by
  obtain ⟨shapes, length⟩ := backward_shapes sourceA sourceG rows_eq cols_eq
  rw [sigmoidBackward, if_neg shapes]
  simp only [stored, ← cols_eq]
  refine gives_assignData_iff sourceA ?_
    (v := fun k => G.data.getD k 0 * logistic (A.data.getD k 0) * (1 - logistic (A.data.getD k 0)))
  intro k inside
  rw [data_eq inside, data_eq (length ▸ inside)]
  rfl

end Backward

structure Elementwise (logistic : α → α) (A G : Tensor2D α) : Prop where
  relu : Gives A.relu A.rows A.cols fun i j => max (element A i j) 0
  sigmoid : Gives (A.sigmoid logistic) A.rows A.cols fun i j => logistic (element A i j)
  reluBackward : Gives (A.reluBackward G) A.rows A.cols fun i j => if element A i j > 0 then element G i j else 0
  sigmoidBackward : Gives (A.sigmoidBackward logistic G) A.rows A.cols fun i j =>
    element G i j * logistic (element A i j) * (1 - logistic (element A i j))

/-- The elements lie where they are without transposition. -/
def InStorageOrder (tensor : Tensor2D α) : Prop :=
  ∀ i < tensor.rows, ∀ j < tensor.cols, stored tensor i j = element tensor i j

omit [LinearOrder α] in
theorem inStorageOrder_of_straight (source : FromRowMajor tensor) (straight : tensor.isTransposed = false) :
    InStorageOrder tensor := by
  intro i row j col
  rw [stored, element, call, source.index_eq row col, flat, straight, if_neg Bool.false_ne_true,
    List.getD_eq_getElem?_getD]

theorem elementwise_iff [IsStrictOrderedRing α] (sourceA : FromRowMajor A) (sourceG : FromRowMajor G)
    (rows_eq : A.rows = G.rows) (cols_eq : A.cols = G.cols) :
    (∀ logistic, Elementwise logistic A G) ↔ InStorageOrder A ∧ InStorageOrder G := by
  constructor
  · intro elementwise
    constructor
    · intro i row j col
      exact (gives_sigmoid_iff sourceA).mp (elementwise id).sigmoid i j row col
    · intro i row j col
      have two := (gives_sigmoidBackward_iff sourceA sourceG rows_eq cols_eq).mp (elementwise fun _ => 2).sigmoidBackward
        i j (rows_eq ▸ row) (cols_eq ▸ col)
      have factor : (1 - 2 : α) ≠ 0 := sub_ne_zero.mpr (ne_of_lt one_lt_two)
      exact mul_right_cancel₀ two_ne_zero (mul_right_cancel₀ factor two)
  · rintro ⟨orderA, orderG⟩ logistic
    have sameG : ∀ i < A.rows, ∀ j < A.cols, stored G i j = element G i j := by
      rw [rows_eq, cols_eq]
      exact orderG
    constructor
    · rw [gives_relu_iff sourceA]
      intro i j row col
      rw [orderA i row j col]
    · rw [gives_sigmoid_iff sourceA]
      intro i j row col
      rw [orderA i row j col]
    · rw [gives_reluBackward_iff sourceA sourceG rows_eq cols_eq]
      intro i j row col
      rw [orderA i row j col, sameG i row j col]
    · rw [gives_sigmoidBackward_iff sourceA sourceG rows_eq cols_eq]
      intro i j row col
      rw [orderA i row j col, sameG i row j col]

theorem elementwise_row :
    let A : Tensor2D Int := { rows := 3, cols := 1, data := [1, -2, 3] }
    let G : Tensor2D Int := { rows := 1, cols := 3, data := [4, 5, 6] }
    ∀ logistic, Elementwise logistic A.transpose G := by
  intro A G
  have sourceA : FromRowMajor A.transpose := .transpose (.rowMajor 3 1 _ rfl (by decide))
  have sourceG : FromRowMajor G := .rowMajor 1 3 _ rfl (by decide)
  have orderA : InStorageOrder A.transpose := by
    unfold InStorageOrder
    decide
  exact (elementwise_iff sourceA sourceG rfl rfl).mpr ⟨orderA, inStorageOrder_of_straight sourceG rfl⟩

theorem relu_leaves_out_flag :
    let A : Tensor2D Int := { rows := 2, cols := 2, data := [1, 2, 3, 4] }
    FromRowMajor A.transpose ∧ ¬ ∀ logistic, Elementwise logistic A.transpose A.transpose := by
  intro A
  refine ⟨.transpose (.rowMajor 2 2 _ rfl (by decide)), ?_⟩
  intro elementwise
  obtain ⟨result, made, -, -, calls⟩ := (elementwise id).relu
  cases made
  exact absurd (calls 0 1 (by decide) (by decide)) (by decide)

end KnowledgeAcquisition.Proof.MachineLearning
