import KnowledgeAcquisition.Math.Matrix
import KnowledgeAcquisition.Proof.MachineLearning.DenseLayer
import Mathlib.LinearAlgebra.Matrix.Determinant.Basic

/-!
# Determinants by expansion

The minors that `get_minor` fills element by element are the submatrices of the expansion along the first row, so the
recursion computes the determinant; with it, what is known of determinants holds of the computed ones.
-/

namespace KnowledgeAcquisition.Proof.Math
open KnowledgeAcquisition.Proof.MachineLearning KnowledgeAcquisition.MachineLearning.Tensor2D

variable {α : Type*} {rows cols inner n : Nat} {data : List α} {f : Nat → Nat → α}

structure Filled (rows cols : Nat) (data : List α) (count : Nat) (f : Nat → Nat → α) : Prop where
  length_eq : data.length = rows * cols
  element : ∀ i j, i < rows → j < cols → i * cols + j < count → data[i * cols + j]? = some (f i j)

theorem Filled.holds (filled : Filled rows cols data (rows * cols) f) : Holds rows cols data f := by
  refine ⟨filled.length_eq, ?_⟩
  intro i j row col
  exact filled.element i j row col (flat_lt row col)

theorem Filled.next {i j : Nat} (filled : Filled rows cols data (i * cols + j) f) (row : i < rows) (col : j < cols) :
    ∃ next, store data (i * cols + j) (f i j) = some next ∧ Filled rows cols next (i * cols + j + 1) f := by
  have inside : i * cols + j < data.length := filled.length_eq ▸ flat_lt row col
  refine ⟨data.set (i * cols + j) (f i j), if_pos inside, ?_, ?_⟩
  · rw [List.length_set, filled.length_eq]
  · intro i' j' row' col' before
    by_cases here : i' * cols + j' = i * cols + j
    · obtain ⟨rfl, rfl⟩ := flat_inj col' col here
      rw [List.getElem?_set_self inside]
    · rw [List.getElem?_set_ne (Ne.symm here)]
      exact filled.element i' j' row' col' (by omega)

def skip (excluded i : Nat) : Nat := if i < excluded then i else i + 1

def kept (excluded i : Nat) : Nat := if i ≤ excluded then i else i - 1

theorem kept_zero (excluded : Nat) : kept excluded 0 = 0 := if_pos (Nat.zero_le _)

theorem kept_self (excluded : Nat) : kept excluded (excluded + 1) = kept excluded excluded := by
  rw [kept, if_neg (by omega), kept, if_pos (Nat.le_refl _), Nat.add_sub_cancel]

theorem kept_succ {excluded i : Nat} (other : i ≠ excluded) : kept excluded (i + 1) = kept excluded i + 1 := by
  unfold kept
  split <;> split <;> omega

theorem skip_kept {excluded i : Nat} (other : i ≠ excluded) : skip excluded (kept excluded i) = i := by
  unfold skip kept
  split <;> split <;> omega

theorem kept_all {excluded : Nat} (inside : excluded < n) : kept excluded n = n - 1 := if_neg (by omega)

theorem kept_lt {excluded i : Nat} (inside : excluded < n) (other : i ≠ excluded) (here : i < n) :
    kept excluded i < n - 1 := by
  unfold kept
  split <;> omega

/-! ## Minors -/

section Minors

variable {A : Math.Matrix α rows cols}

theorem holds_call (holds : Holds rows cols A.data f) {r c : Nat} (row : r < rows) (col : c < cols) :
    A.call r c = some (f r c) := holds.element r c row col

theorem ofArray_eq (length : data.length = rows * cols) :
    (Math.Matrix.ofArray data : Option (Math.Matrix α rows cols)) = some ⟨data, length⟩ := dif_pos length

structure FilledTo (rows cols : Nat) (f : Nat → Nat → α) (place : Nat) (s : Math.Matrix.Filling α) : Prop where
  targetIdx_eq : s.targetIdx = place
  filled : Filled rows cols s.minorData place f

theorem FilledTo.push {s : Math.Matrix.Filling α} {i j : Nat} (inv : FilledTo rows cols f (i * cols + j) s)
    (row : i < rows) (col : j < cols) :
    ∃ next, s.push (f i j) = some next ∧ FilledTo rows cols f (i * cols + (j + 1)) next := by
  obtain ⟨next, stored, filled⟩ := inv.filled.next row col
  refine ⟨{ minorData := next, targetIdx := s.targetIdx + 1 }, ?_, ?_, filled⟩
  · rw [Math.Matrix.Filling.push, inv.targetIdx_eq, stored, Option.map_some]
  · rw [inv.targetIdx_eq, Nat.add_assoc]

def minorOf (f : Nat → Nat → α) (excludeRow excludeCol i j : Nat) : α := f (skip excludeRow i) (skip excludeCol j)

variable {excludeRow excludeCol : Nat}

theorem copyRow_spec (holds : Holds rows cols A.data f) (excluded : excludeRow < rows) (col : excludeCol < cols)
    {r : Nat} (row : r < rows) (other : r ≠ excludeRow) {s : Math.Matrix.Filling α}
    (inv : FilledTo (rows - 1) (cols - 1) (minorOf f excludeRow excludeCol) (kept excludeRow r * (cols - 1)) s) :
    ∃ next, A.copyRow excludeCol r s = some next ∧ FilledTo (rows - 1) (cols - 1) (minorOf f excludeRow excludeCol)
      (kept excludeRow (r + 1) * (cols - 1)) next := by
  refine forEach_total (I := fun c => FilledTo (rows - 1) (cols - 1) (minorOf f excludeRow excludeCol)
    (kept excludeRow r * (cols - 1) + kept excludeCol c)) ?_ ?_ ?_
  · rwa [kept_zero, Nat.add_zero]
  · intro c s inside inv
    by_cases skipped : c = excludeCol
    · subst skipped
      exact ⟨s, if_pos rfl, by rwa [kept_self]⟩
    · obtain ⟨next, pushed, inv⟩ := inv.push (kept_lt excluded other row) (kept_lt col skipped inside)
      rw [minorOf, skip_kept other, skip_kept skipped] at pushed
      refine ⟨next, ?_, ?_⟩
      · rw [if_neg skipped, holds_call holds row inside, Option.bind_some, pushed]
      · rwa [kept_succ skipped]
  · intro last inv
    rw [kept_all col] at inv
    rwa [kept_succ other, Nat.succ_mul]

theorem getMinor_spec [Zero α] (holds : Holds rows cols A.data f) (row : excludeRow < rows) (col : excludeCol < cols) :
    ∃ minor, A.getMinor excludeRow excludeCol = some minor ∧
      Holds (rows - 1) (cols - 1) minor.data (minorOf f excludeRow excludeCol) := by
  let blank : Math.Matrix.Filling α := { minorData := List.replicate ((rows - 1) * (cols - 1)) 0, targetIdx := 0 }
  have loop : ∃ filled, (forEach rows blank fun s r =>
      if r = excludeRow then some s else A.copyRow excludeCol r s) = some filled ∧
      FilledTo (rows - 1) (cols - 1) (minorOf f excludeRow excludeCol) ((rows - 1) * (cols - 1)) filled := by
    refine forEach_total (I := fun r => FilledTo (rows - 1) (cols - 1) (minorOf f excludeRow excludeCol)
      (kept excludeRow r * (cols - 1))) ?_ ?_ ?_
    · rw [kept_zero, Nat.zero_mul]
      exact ⟨rfl, List.length_replicate, nofun⟩
    · intro r s inside inv
      by_cases skipped : r = excludeRow
      · subst skipped
        exact ⟨s, if_pos rfl, by rwa [kept_self]⟩
      · rw [if_neg skipped]
        exact copyRow_spec holds row col inside skipped inv
    · intro last inv
      rwa [kept_all row] at inv
  obtain ⟨filled, ran, complete⟩ := loop
  refine ⟨⟨filled.minorData, complete.filled.length_eq⟩, ?_, complete.filled.holds⟩
  rw [Math.Matrix.getMinor, ran]
  exact ofArray_eq complete.filled.length_eq

end Minors

section Entries

variable [Zero α]

def entries (A : Math.Matrix α rows cols) : Matrix (Fin rows) (Fin cols) α := fun r c => (A.call r c).getD 0

theorem holds_entries (A : Math.Matrix α rows cols) : Holds rows cols A.data fun r c => (A.call r c).getD 0 := by
  refine ⟨A.size, ?_⟩
  intro i j row col
  have inside : i * cols + j < A.data.length := A.size ▸ flat_lt row col
  rw [Math.Matrix.call, List.getElem?_eq_getElem inside, Option.getD_some]

theorem call_eq (A : Math.Matrix α rows cols) (r : Fin rows) (c : Fin cols) : A.call r c = some (entries A r c) :=
  holds_call (holds_entries A) r.isLt c.isLt

theorem entries_apply {A : Math.Matrix α rows cols} (holds : Holds rows cols A.data f) (r : Fin rows) (c : Fin cols) :
    entries A r c = f r c := by
  rw [entries, holds_call holds r.isLt c.isLt, Option.getD_some]

theorem val_succAbove (p : Fin (n + 1)) (i : Fin n) : (p.succAbove i).val = skip p i := by
  unfold Fin.succAbove skip
  split
  · rename_i before
    exact (if_pos before).symm
  · rename_i after
    exact (if_neg after).symm

theorem entries_minor (A : Math.Matrix α (n + 1) (n + 1)) (c : Fin (n + 1)) :
    ∃ minor, A.getMinor 0 c = some minor ∧ entries minor = (entries A).submatrix Fin.succ c.succAbove := by
  obtain ⟨minor, made, holds⟩ := getMinor_spec (holds_entries A) (Nat.succ_pos n) c.isLt
  refine ⟨minor, made, ?_⟩
  funext i j
  rw [entries_apply holds, Matrix.submatrix_apply, entries, val_succAbove]
  rfl

theorem transpose_loop (A : Math.Matrix α rows cols) (holds : Holds rows cols A.data f) :
    ∃ data, (forEach rows (List.replicate (cols * rows) 0) fun data r =>
      forEach cols data fun data c => do
        let value ← A.call r c
        store data (c * rows + r) value) = some data ∧ Holds cols rows data fun i j => f j i := by
  -- Before row `r` the columns of the result are final.
  refine forEach_total (I := fun r data => Holds cols rows data fun i j => if j < r then f j i else 0) ?_ ?_ ?_
  · exact (holds_replicate cols rows 0).congr fun i j _ _ => (if_neg (Nat.not_lt_zero j)).symm
  · intro r data row inv
    refine forEach_total (I := fun c data => Holds cols rows data fun i j =>
      if j < r ∨ j = r ∧ i < c then f j i else 0) ?_ ?_ ?_
    · apply inv.congr
      intro i j _ _
      simp only [Nat.not_lt_zero, and_false, or_false]
    · intro c data col inv
      obtain ⟨next, stored, inv⟩ := inv.store col row (f r c)
      refine ⟨next, by rw [holds_call holds row col]; exact stored, ?_⟩
      apply inv.congr
      intro i j _ _
      by_cases written : i = c ∧ j = r
      · obtain ⟨rfl, rfl⟩ := written
        rw [if_pos ⟨rfl, rfl⟩, if_pos (by omega)]
      · have same : (j < r ∨ j = r ∧ i < c + 1) = (j < r ∨ j = r ∧ i < c) := propext (by omega)
        simp only [written, if_false, same]
    · intro last inv
      apply inv.congr
      intro i j inside _
      have same : (j < r + 1) = (j < r ∨ j = r ∧ i < cols) := propext (by omega)
      simp only [same]
  · intro last inv
    apply inv.congr
    intro i j _ inside
    rw [if_pos inside]

theorem transpose_spec (A : Math.Matrix α rows cols) :
    ∃ result, A.transpose = some result ∧ entries result = (entries A).transpose := by
  obtain ⟨data, ran, holds⟩ := transpose_loop A (holds_entries A)
  refine ⟨⟨data, holds.length_eq⟩, ?_, ?_⟩
  · rw [Math.Matrix.transpose, ran]
    exact ofArray_eq holds.length_eq
  · funext i j
    rw [entries_apply holds, Matrix.transpose_apply, entries]

end Entries

section Determinants

variable [CommRing α]

theorem multiply_spec (A : Math.Matrix α rows inner) (B : Math.Matrix α inner cols) :
    ∃ result, A.multiply B = some result ∧ entries result = entries A * entries B := by
  have holdsA := holds_entries A
  have holdsB := holds_entries B
  have reads : Reads rows inner cols A.call B.call (fun i j => i * cols + j) _ _ :=
    ⟨fun _ _ => holds_call holdsA, fun _ _ => holds_call holdsB, fun _ _ _ _ => rfl⟩
  obtain ⟨data, ran, holds⟩ := accumulate_spec reads (holds_replicate rows cols 0)
  refine ⟨⟨data, holds.length_eq⟩, ?_, ?_⟩
  · rw [Math.Matrix.multiply, ran]
    exact ofArray_eq holds.length_eq
  · funext i j
    rw [entries_apply holds, dot_eq_sum, Matrix.mul_apply]
    rfl

def summand (M : Matrix (Fin (n + 1)) (Fin (n + 1)) α) (c : Nat) : α :=
  if inside : c < n + 1 then
    (-1) ^ c * M 0 ⟨c, inside⟩ * (M.submatrix Fin.succ (Fin.succAbove ⟨c, inside⟩)).det
  else 0

theorem sum_summand (M : Matrix (Fin (n + 1)) (Fin (n + 1)) α) :
    ∑ c ∈ Finset.range (n + 1), summand M c = M.det := by
  rw [Matrix.det_succ_row_zero, Finset.sum_range]
  apply Finset.sum_congr rfl
  intro c _
  exact dif_pos c.isLt

structure Expanded (M : Matrix (Fin (n + 1)) (Fin (n + 1)) α) (c : Nat) (s : Math.Matrix.Expansion α) : Prop where
  det_eq : s.det = ∑ c ∈ Finset.range c, summand M c
  sign_eq : s.sign = (-1) ^ c

theorem determinant_step (minors : ∀ minor : Math.Matrix α (n + 2) (n + 2), minor.determinant = some (entries minor).det)
    (A : Math.Matrix α (n + 3) (n + 3)) : A.determinant = some (entries A).det := by
  let start : Math.Matrix.Expansion α := { det := 0, sign := 1 }
  have loop : ∃ last, (forEach (n + 3) start fun s c => do
      let minor ← A.getMinor 0 c
      let minorDet ← Math.Matrix.determinant minor
      let value ← A.call 0 c
      some { det := s.det + s.sign * value * minorDet, sign := -s.sign }) = some last ∧
      Expanded (entries A) (n + 3) last := by
    refine forEach_total (I := Expanded (entries A)) ⟨rfl, (pow_zero _).symm⟩ ?_ fun _ inv => inv
    intro c s inside inv
    obtain ⟨minor, made, submatrix⟩ := entries_minor A ⟨c, inside⟩
    have value := call_eq A 0 ⟨c, inside⟩
    refine ⟨{ det := s.det + s.sign * entries A 0 ⟨c, inside⟩ * (entries minor).det, sign := -s.sign }, ?_, ?_, ?_⟩
    · simp only [made, minors minor, Option.bind_eq_bind, Option.bind_some]
      rw [Fin.val_zero] at value
      rw [value, Option.bind_some]
    · rw [Finset.sum_range_succ, ← inv.det_eq, inv.sign_eq, summand, dif_pos inside, submatrix]
    · rw [inv.sign_eq, pow_succ, mul_neg_one]
  obtain ⟨last, ran, expanded⟩ := loop
  rw [Math.Matrix.determinant, ran, Option.map_some, expanded.det_eq, sum_summand]

theorem determinant_eq_det : ∀ {n : Nat}, 0 < n → ∀ A : Math.Matrix α n n, A.determinant = some (entries A).det
  | 1, _, A => by
      rw [Matrix.det_fin_one]
      exact call_eq A 0 0
  | 2, _, A => by
      have a := call_eq A 0 0
      have d := call_eq A 1 1
      have b := call_eq A 0 1
      have c := call_eq A 1 0
      simp only [Fin.val_zero, Fin.val_one] at a b c d
      rw [Matrix.det_fin_two, Math.Matrix.determinant]
      simp only [a, b, c, d, Option.bind_eq_bind, Option.bind_some]
  | _ + 3, _, A => determinant_step (determinant_eq_det (Nat.succ_pos _)) A

theorem determinant_spec (positive : 0 < n) (A B : Math.Matrix α n n) :
    (∀ r c : Fin n, A.call r c = some (entries A r c)) ∧
    A.determinant = some (entries A).det ∧
    (∃ transposed, A.transpose = some transposed ∧ ∀ r c : Fin n, transposed.call r c = A.call c r) ∧
    A.transpose.bind Math.Matrix.determinant = A.determinant ∧
    ∃ a b, A.determinant = some a ∧ B.determinant = some b ∧
      (A.multiply B).bind Math.Matrix.determinant = some (a * b) := by
  have leibniz := fun A : Math.Matrix α n n => determinant_eq_det positive A
  obtain ⟨transposed, ranT, entriesT⟩ := transpose_spec A
  obtain ⟨product, ranP, entriesP⟩ := multiply_spec A B
  refine ⟨call_eq A, leibniz A, ⟨transposed, ranT, ?_⟩, ?_, _, _, leibniz A, leibniz B, ?_⟩
  · intro r c
    rw [call_eq, call_eq, entriesT, Matrix.transpose_apply]
  · rw [ranT, Option.bind_some, leibniz, leibniz, entriesT, Matrix.det_transpose]
  · rw [ranP, Option.bind_some, leibniz, entriesP, Matrix.det_mul]

theorem determinant_spec_three :
    let A : Math.Matrix ℤ 3 3 := ⟨[1, 2, 3, 0, 1, 4, 5, 6, 0], rfl⟩
    A.determinant = some 1 ∧ (∃ transposed, A.transpose = some transposed ∧ transposed.call 0 2 = some 5) ∧
      A.transpose.bind Math.Matrix.determinant = A.determinant := by
  intro A
  obtain ⟨-, -, ⟨transposed, ran, turned⟩, same, -⟩ :=
    determinant_spec (Nat.succ_pos 2) A ⟨[2, 0, -2, 2, 0, -1, 1, 2, 1], rfl⟩
  exact ⟨by decide, ⟨transposed, ran, turned 0 2⟩, same⟩

end Determinants

end KnowledgeAcquisition.Proof.Math
