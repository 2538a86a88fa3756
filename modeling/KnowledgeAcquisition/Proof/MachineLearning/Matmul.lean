import KnowledgeAcquisition.Library.Loop
import KnowledgeAcquisition.MachineLearning.Tensor2D

/-!
# Matrix products

The three cases of `matmul` against the definition of the product. During the loops the result holds partial
sums; which partial sum an element holds depends on how far the loops have come.
-/

namespace KnowledgeAcquisition.Proof.MachineLearning
open KnowledgeAcquisition.MachineLearning Library Tensor2D

variable {α : Type*} {tensor : Tensor2D α} {rows cols : Nat} {data : List α} {f g : Nat → Nat → α}

theorem flat_lt {i j : Nat} (row : i < rows) (col : j < cols) : i * cols + j < rows * cols := by
  calc i * cols + j < i * cols + cols := by omega
    _ = (i + 1) * cols := (Nat.succ_mul i cols).symm
    _ ≤ rows * cols := Nat.mul_le_mul_right cols row

theorem flat_div {i j : Nat} (col : j < cols) : (i * cols + j) / cols = i := by
  rw [Nat.mul_comm, Nat.mul_add_div (Nat.zero_lt_of_lt col), Nat.div_eq_of_lt col, Nat.add_zero]

theorem flat_mod {i j : Nat} (col : j < cols) : (i * cols + j) % cols = j := by
  rw [Nat.mul_comm, Nat.mul_add_mod, Nat.mod_eq_of_lt col]

theorem flat_inj {i j i' j' : Nat} (col : j < cols) (col' : j' < cols) (same : i * cols + j = i' * cols + j') :
    i = i' ∧ j = j' := by
  constructor
  · calc i = (i * cols + j) / cols := (flat_div col).symm
      _ = i' := by rw [same, flat_div col']
  · calc j = (i * cols + j) % cols := (flat_mod col).symm
      _ = j' := by rw [same, flat_mod col']

structure Holds (rows cols : Nat) (data : List α) (f : Nat → Nat → α) : Prop where
  length_eq : data.length = rows * cols
  element : ∀ i j, i < rows → j < cols → data[i * cols + j]? = some (f i j)

theorem Holds.congr (holds : Holds rows cols data f) (same : ∀ i j, i < rows → j < cols → f i j = g i j) :
    Holds rows cols data g := by
  refine ⟨holds.length_eq, ?_⟩
  intro i j row col
  rw [holds.element i j row col, same i j row col]

theorem Holds.store (holds : Holds rows cols data f) {i j : Nat} (row : i < rows) (col : j < cols) (value : α) :
    ∃ next, store data (i * cols + j) value = some next ∧
      Holds rows cols next fun i' j' => if i' = i ∧ j' = j then value else f i' j' := by
  have inside : i * cols + j < data.length := holds.length_eq ▸ flat_lt row col
  refine ⟨data.set (i * cols + j) value, if_pos inside, ?_, ?_⟩
  · rw [List.length_set, holds.length_eq]
  · intro i' j' row' col'
    by_cases here : i' = i ∧ j' = j
    · obtain ⟨rfl, rfl⟩ := here
      rw [List.getElem?_set_self inside, if_pos ⟨rfl, rfl⟩]
    · have elsewhere : i * cols + j ≠ i' * cols + j' := by
        intro same
        obtain ⟨rfl, rfl⟩ := flat_inj col col' same
        exact here ⟨rfl, rfl⟩
      rw [List.getElem?_set_ne elsewhere, holds.element i' j' row' col', if_neg here]

theorem holds_replicate (rows cols : Nat) (value : α) :
    Holds rows cols (List.replicate (rows * cols) value) fun _ _ => value := by
  refine ⟨List.length_replicate, ?_⟩
  intro i j row col
  exact List.getElem?_replicate_of_lt (flat_lt row col)

theorem forEach_total {σ : Type*} {n : Nat} {s : σ} {body : σ → Nat → Option σ} {I : Nat → σ → Prop} {Q : σ → Prop}
    (start : I 0 s) (step : ∀ i s, i < n → I i s → ∃ next, body s i = some next ∧ I (i + 1) next)
    (finish : ∀ last, I n last → Q last) : ∃ last, forEach n s body = some last ∧ Q last := by
  obtain ⟨last, ran, inv⟩ := Loop.foldlM_range_total step start
  exact ⟨last, ran, finish last inv⟩

theorem forEach_keeps {σ : Type*} {n : Nat} {s last : σ} {body : σ → Nat → Option σ} {I : σ → Prop} (start : I s)
    (step : ∀ i s next, I s → body s i = some next → I next) (ran : forEach n s body = some last) : I last := by
  unfold forEach at ran
  generalize List.range n = indices at ran
  induction indices generalizing s with
  | nil => exact Option.some.inj ran ▸ start
  | cons i rest ih =>
      rw [List.foldlM_cons] at ran
      obtain ⟨next, visited, ran⟩ := Option.bind_eq_some_iff.mp ran
      exact ih (step i s next start visited) ran

theorem store_length {i : Nat} {value : α} {next : List α} (stored : store data i value = some next) :
    next.length = data.length := by
  unfold store at stored
  split at stored
  · rw [← Option.some.inj stored, List.length_set]
  · cases stored

section Loops

variable [Zero α] [Add α] [Mul α] {inner : Nat} {a b : Nat → Nat → α} {left right : Nat → Nat → Option α}
  {target : Nat → Nat → Nat}

def dot (a b : Nat → Nat → α) (i j n : Nat) : α := (List.range n).foldl (fun sum k => sum + a i k * b k j) 0

theorem dot_zero (a b : Nat → Nat → α) (i j : Nat) : dot a b i j 0 = 0 := rfl

theorem dot_succ (a b : Nat → Nat → α) (i j n : Nat) : dot a b i j (n + 1) = dot a b i j n + a i n * b n j := by
  rw [dot, List.range_succ, List.foldl_append]
  rfl

structure Reads (rows inner cols : Nat) (left right : Nat → Nat → Option α) (target : Nat → Nat → Nat)
    (a b : Nat → Nat → α) : Prop where
  left_eq : ∀ i k, i < rows → k < inner → left i k = some (a i k)
  right_eq : ∀ k j, k < inner → j < cols → right k j = some (b k j)
  target_eq : ∀ i j, i < rows → j < cols → target i j = i * cols + j

theorem sum_loop (reads : Reads rows inner cols left right target a b) {i j : Nat} (row : i < rows) (col : j < cols) :
    (forEach inner 0 fun sum k => do
      let x ← left i k
      let y ← right k j
      some (sum + x * y)) = some (dot a b i j inner) := by
  have summed : ∃ sum, (forEach inner 0 fun sum k => do
      let x ← left i k
      let y ← right k j
      some (sum + x * y)) = some sum ∧ sum = dot a b i j inner := by
    refine forEach_total (I := fun k sum => sum = dot a b i j k) rfl ?_ fun _ inv => inv
    intro k sum step inv
    refine ⟨dot a b i j (k + 1), ?_, rfl⟩
    rw [reads.left_eq i k row step, reads.right_eq k j step col, inv, dot_succ]
    rfl
  obtain ⟨sum, ran, rfl⟩ := summed
  exact ran

omit [Zero α] in
theorem add_loop (reads : Reads rows inner cols left right target a b) (holds : Holds rows cols data f) {i k : Nat}
    (row : i < rows) (step : k < inner) (x : α) :
    ∃ next, (forEach cols data fun data j => do
        let y ← right k j
        let old ← data[target i j]?
        store data (target i j) (old + x * y)) = some next ∧
      Holds rows cols next fun i' j' => if i' = i then f i' j' + x * b k j' else f i' j' := by
  refine forEach_total (I := fun j data =>
    Holds rows cols data fun i' j' => if i' = i ∧ j' < j then f i' j' + x * b k j' else f i' j') ?_ ?_ ?_
  · exact holds.congr fun i' j' _ _ => (if_neg (by omega)).symm
  · intro j data col inv
    obtain ⟨next, stored, inv'⟩ := inv.store row col (f i j + x * b k j)
    have here : data[i * cols + j]? = some (f i j) := by
      rw [inv.element i j row col, if_neg (by omega)]
    refine ⟨next, ?_, inv'.congr ?_⟩
    · rw [reads.right_eq k j step col, reads.target_eq i j row col, here]
      exact stored
    · intro i' j' _ _
      by_cases written : i' = i ∧ j' = j
      · obtain ⟨rfl, rfl⟩ := written
        rw [if_pos ⟨rfl, rfl⟩, if_pos ⟨rfl, by omega⟩]
      · have same : (i' = i ∧ j' < j + 1) = (i' = i ∧ j' < j) := propext (by omega)
        simp only [written, if_false, same]
  · intro last inv
    refine inv.congr ?_
    intro i' j' _ col
    simp only [col, and_true]

def partialRows (inner : Nat) (a b : Nat → Nat → α) (i k i' j' : Nat) : α :=
  if i' < i then dot a b i' j' inner else if i' = i then dot a b i' j' k else 0

theorem partialRows_succ (i k i' j' : Nat) : partialRows inner a b i (k + 1) i' j' =
    if i' = i then partialRows inner a b i k i' j' + a i k * b k j' else partialRows inner a b i k i' j' := by
  by_cases here : i' = i
  · subst here
    simp only [partialRows, if_true, Nat.lt_irrefl, if_false, dot_succ]
  · simp only [partialRows, here, if_false]

theorem partialRows_next (i i' j' : Nat) :
    partialRows inner a b (i + 1) 0 i' j' = partialRows inner a b i inner i' j' := by
  unfold partialRows
  rcases Nat.lt_trichotomy i' i with before | rfl | after
  · rw [if_pos (by omega), if_pos before]
  · rw [if_pos (by omega), if_neg (Nat.lt_irrefl i'), if_pos rfl]
  · have past : ¬ i' < i + 1 := by omega
    have beyond : ¬ i' < i ∧ i' ≠ i := by omega
    rw [if_neg past, dot_zero, ite_self, if_neg beyond.1, if_neg beyond.2]

theorem accumulate_spec (reads : Reads rows inner cols left right target a b)
    (zeros : Holds rows cols data fun _ _ => 0) :
    ∃ next, accumulate rows inner cols left right target data = some next ∧
      Holds rows cols next fun i j => dot a b i j inner := by
  refine forEach_total (I := fun i data => Holds rows cols data (partialRows inner a b i 0)) ?_ ?_ ?_
  · refine zeros.congr ?_
    intro i j _ _
    rw [partialRows, if_neg (Nat.not_lt_zero i), dot_zero, ite_self]
  · intro i data row inv
    refine forEach_total (I := fun k data => Holds rows cols data (partialRows inner a b i k)) inv ?_ ?_
    · intro k data step inv
      obtain ⟨next, ran, inv'⟩ := add_loop reads inv row step (a i k)
      refine ⟨next, ?_, inv'.congr fun i' j' _ _ => (partialRows_succ i k i' j').symm⟩
      rw [reads.left_eq i k row step]
      exact ran
    · intro last inv
      exact inv.congr fun i' j' _ _ => (partialRows_next i i' j').symm
  · intro last inv
    refine inv.congr ?_
    intro i j row _
    rw [partialRows, if_pos row]

theorem sumUp_spec (reads : Reads rows inner cols left right target a b)
    (zeros : Holds rows cols data fun _ _ => 0) :
    ∃ next, sumUp rows inner cols left right target data = some next ∧
      Holds rows cols next fun i j => dot a b i j inner := by
  -- Before row `i` and column `j` the elements are final.
  refine forEach_total (I := fun i data =>
    Holds rows cols data fun i' j' => if i' < i then dot a b i' j' inner else 0) ?_ ?_ ?_
  · exact zeros.congr fun i' j' _ _ => (if_neg (Nat.not_lt_zero i')).symm
  · intro i data row inv
    refine forEach_total (I := fun j data => Holds rows cols data fun i' j' =>
      if i' < i ∨ i' = i ∧ j' < j then dot a b i' j' inner else 0) ?_ ?_ ?_
    · refine inv.congr ?_
      intro i' j' _ _
      simp only [Nat.not_lt_zero, and_false, or_false]
    · intro j data col inv
      obtain ⟨next, stored, inv'⟩ := inv.store row col (dot a b i j inner)
      refine ⟨next, ?_, inv'.congr ?_⟩
      · rw [sum_loop reads row col, reads.target_eq i j row col]
        exact stored
      · intro i' j' _ _
        by_cases written : i' = i ∧ j' = j
        · obtain ⟨rfl, rfl⟩ := written
          rw [if_pos ⟨rfl, rfl⟩, if_pos (by omega)]
        · have same : (i' < i ∨ i' = i ∧ j' < j + 1) = (i' < i ∨ i' = i ∧ j' < j) := propext (by omega)
          simp only [written, if_false, same]
    · intro last inv
      refine inv.congr ?_
      intro i' j' _ col
      have same : (i' < i + 1) = (i' < i ∨ i' = i ∧ j' < cols) := propext (by omega)
      simp only [same]
  · intro last inv
    refine inv.congr ?_
    intro i j row _
    rw [if_pos row]

omit [Zero α] in
theorem accumulate_length {next : List α} (ran : accumulate rows inner cols left right target data = some next) :
    next.length = data.length := by
  refine forEach_keeps (I := fun now : List α => now.length = data.length) rfl ?_ ran
  intro i now later length ran
  refine forEach_keeps (I := fun now : List α => now.length = data.length) length ?_ ran
  intro k now later length ran
  obtain ⟨aVal, _, ran⟩ := Option.bind_eq_some_iff.mp ran
  refine forEach_keeps (I := fun now : List α => now.length = data.length) length ?_ ran
  intro j now later length ran
  obtain ⟨b, _, ran⟩ := Option.bind_eq_some_iff.mp ran
  obtain ⟨old, _, stored⟩ := Option.bind_eq_some_iff.mp ran
  exact (store_length stored).trans length

theorem sumUp_length {next : List α} (ran : sumUp rows inner cols left right target data = some next) :
    next.length = data.length := by
  refine forEach_keeps (I := fun now : List α => now.length = data.length) rfl ?_ ran
  intro i now later length ran
  refine forEach_keeps (I := fun now : List α => now.length = data.length) length ?_ ran
  intro j now later length ran
  obtain ⟨sum, _, stored⟩ := Option.bind_eq_some_iff.mp ran
  exact (store_length stored).trans length

end Loops

/-! ## Tensors -/

/-- A row-major tensor, transposed any number of times. -/
inductive FromRowMajor : Tensor2D α → Prop where
  | rowMajor (rows cols : Nat) (data : List α) (length_eq : data.length = rows * cols)
      (fits : data.length ≤ maxSize) : FromRowMajor { rows, cols, data }
  | transpose {tensor : Tensor2D α} (source : FromRowMajor tensor) : FromRowMajor tensor.transpose

theorem FromRowMajor.length_eq (source : FromRowMajor tensor) : tensor.data.length = tensor.rows * tensor.cols := by
  induction source with
  | rowMajor rows cols data length_eq fits => exact length_eq
  | transpose source ih => exact ih.trans (Nat.mul_comm _ _)

theorem FromRowMajor.fits (source : FromRowMajor tensor) : tensor.data.length ≤ maxSize := by
  induction source with
  | rowMajor rows cols data length_eq fits => exact fits
  | transpose source ih => exact ih

theorem sizeT_eq {n : Nat} (fits : n ≤ maxSize) : sizeT n = n :=
  Nat.mod_eq_of_lt (Nat.lt_of_le_of_lt fits (by decide))

theorem FromRowMajor.sizeT_index {n : Nat} (source : FromRowMajor tensor) (inside : n < tensor.rows * tensor.cols) :
    sizeT n = n := by
  refine sizeT_eq ?_
  have length := source.length_eq
  have fits := source.fits
  omega

def flat (tensor : Tensor2D α) (r c : Nat) : Nat :=
  if tensor.isTransposed then c * tensor.rows + r else r * tensor.cols + c

theorem flat_bound {r c : Nat} (row : r < tensor.rows) (col : c < tensor.cols) :
    flat tensor r c < tensor.rows * tensor.cols := by
  unfold flat
  cases tensor.isTransposed with
  | true =>
      rw [if_pos rfl, Nat.mul_comm tensor.rows]
      exact flat_lt col row
  | false => exact flat_lt row col

theorem FromRowMajor.index_eq (source : FromRowMajor tensor) {r c : Nat} (row : r < tensor.rows)
    (col : c < tensor.cols) : tensor.index r c = flat tensor r c := by
  have small := source.sizeT_index (flat_bound row col)
  unfold index
  unfold flat at small ⊢
  cases transposed : tensor.isTransposed with
  | true => simpa only [transposed, if_true] using small
  | false => simpa only [transposed, Bool.false_eq_true, if_false] using small

def element [Zero α] (tensor : Tensor2D α) (r c : Nat) : α := (tensor.call r c).getD 0

theorem FromRowMajor.call_eq [Zero α] (source : FromRowMajor tensor) {r c : Nat} (row : r < tensor.rows)
    (col : c < tensor.cols) : tensor.call r c = some (element tensor r c) := by
  have inside : tensor.index r c < tensor.data.length := by
    rw [source.index_eq row col, source.length_eq]
    exact flat_bound row col
  rw [element, call, List.getElem?_eq_getElem inside, Option.getD_some]

theorem call_transposed (transposed : tensor.isTransposed = true) :
    (fun r c => tensor.data[sizeT (c * tensor.rows + r)]?) = tensor.call := by
  funext r c
  rw [call, index, if_pos transposed]

theorem call_straight (straight : tensor.isTransposed = false) :
    (fun r c => tensor.data[sizeT (r * tensor.cols + c)]?) = tensor.call := by
  funext r c
  rw [call, index, straight, if_neg Bool.false_ne_true]

theorem index_straight (straight : tensor.isTransposed = false) :
    (fun r c => sizeT (r * tensor.cols + c)) = tensor.index := by
  funext r c
  rw [index, straight, if_neg Bool.false_ne_true]

theorem FromRowMajor.reads [Zero α] {this other : Tensor2D α} (left : FromRowMajor this)
    (right : FromRowMajor other) (same : this.cols = other.rows)
    (fits : this.rows * other.cols ≤ maxSize) (target : Nat → Nat → Nat)
    (row_major : ∀ i j, target i j = sizeT (i * other.cols + j)) :
    Reads this.rows this.cols other.cols this.call other.call target (element this) (element other) := by
  refine ⟨?_, ?_, ?_⟩
  · intro i k row step
    exact left.call_eq row step
  · intro k j step col
    exact right.call_eq (same ▸ step) col
  · intro i j row col
    rw [row_major, sizeT_eq]
    have inside := flat_lt row col
    omega

section Product

variable [Zero α] [Add α] [Mul α] {this other result : Tensor2D α}

def product (this other : Tensor2D α) (i j : Nat) : Option α :=
  forEach this.cols 0 fun sum k => do
    let a ← this.call i k
    let b ← other.call k j
    some (sum + a * b)

def Multiplies (this other : Tensor2D α) : Prop :=
  ∃ result, matmul this other = some result ∧ result.isTransposed = false ∧ result.rows = this.rows ∧
    result.cols = other.cols ∧ ∀ i j, i < this.rows → j < other.cols →
      ∃ value, result.call i j = some value ∧ product this other i j = some value

theorem products_eq (straight : result.isTransposed = false) : products this other result =
    (if !this.isTransposed && other.isTransposed then
      sumUp this.rows this.cols other.cols this.call other.call result.index result.data
    else accumulate this.rows this.cols other.cols this.call other.call result.index result.data) := by
  unfold products
  cases left : this.isTransposed with
  | true => rfl
  | false =>
      cases right : other.isTransposed with
      | true => rw [← call_straight left, ← call_transposed right, ← index_straight straight]; rfl
      | false => rw [← call_straight left, ← call_straight right, ← index_straight straight]; rfl

theorem products_length (straight : result.isTransposed = false) {data : List α}
    (multiplied : products this other result = some data) : data.length = result.data.length := by
  rw [products_eq straight] at multiplied
  split at multiplied
  · exact sumUp_length multiplied
  · exact accumulate_length multiplied

def blank (rows cols : Nat) : Tensor2D α := { rows, cols, data := List.replicate (sizeT (rows * cols)) 0 }

omit [Add α] [Mul α] in
theorem new_eq_some_iff {rows cols : Nat} :
    new rows cols 0 = some result ↔ sizeT (rows * cols) ≤ maxSize ∧ result = blank rows cols := by
  unfold new
  split
  · rename_i large
    constructor
    · intro created
      cases created
    · rintro ⟨bounded, _⟩
      exact absurd bounded (Nat.not_le.mpr large)
  · rename_i bounded
    rw [Option.some.injEq]
    exact ⟨fun created => ⟨Nat.le_of_not_lt bounded, created.symm⟩, fun created => created.2.symm⟩

theorem matmul_eq_some_iff : matmul this other = some result ↔
    this.cols = other.rows ∧ sizeT (this.rows * other.cols) ≤ maxSize ∧
      ∃ data, products this other (blank this.rows other.cols) = some data ∧
        result = { (blank this.rows other.cols : Tensor2D α) with data } := by
  unfold matmul
  by_cases same : this.cols = other.rows
  · rw [if_neg (not_not.mpr same)]
    constructor
    · intro multiplied
      obtain ⟨start, created, multiplied⟩ := Option.bind_eq_some_iff.mp multiplied
      obtain ⟨data, multiplied, done⟩ := Option.bind_eq_some_iff.mp multiplied
      obtain ⟨bounded, rfl⟩ := new_eq_some_iff.mp created
      exact ⟨same, bounded, data, multiplied, (Option.some.inj done).symm⟩
    · rintro ⟨_, bounded, data, multiplied, rfl⟩
      refine Option.bind_eq_some_iff.mpr ⟨_, new_eq_some_iff.mpr ⟨bounded, rfl⟩, ?_⟩
      exact Option.bind_eq_some_iff.mpr ⟨data, multiplied, rfl⟩
  · rw [if_pos same]
    constructor
    · intro multiplied
      cases multiplied
    · rintro ⟨matching, _⟩
      exact absurd matching same

theorem products_spec (left : FromRowMajor this) (right : FromRowMajor other) (same : this.cols = other.rows)
    (fits : this.rows * other.cols ≤ maxSize) :
    ∃ data, products this other (blank this.rows other.cols) = some data ∧
      Holds this.rows other.cols data fun i j => dot (element this) (element other) i j this.cols := by
  have reads := left.reads right same fits (blank this.rows other.cols : Tensor2D α).index fun _ _ => rfl
  have zeros : Holds this.rows other.cols (blank this.rows other.cols : Tensor2D α).data fun _ _ => 0 := by
    rw [blank, sizeT_eq fits]
    exact holds_replicate this.rows other.cols 0
  rw [products_eq rfl]
  split
  · exact sumUp_spec reads zeros
  · exact accumulate_spec reads zeros

theorem multiplies_of_fits (left : FromRowMajor this) (right : FromRowMajor other) (same : this.cols = other.rows)
    (fits : this.rows * other.cols ≤ maxSize) : Multiplies this other := by
  obtain ⟨data, multiplied, holds⟩ := products_spec left right same fits
  refine ⟨{ blank this.rows other.cols with data }, ?_, rfl, rfl, rfl, ?_⟩
  · exact matmul_eq_some_iff.mpr ⟨same, Nat.le_trans (Nat.le_of_eq (sizeT_eq fits)) fits, data, multiplied, rfl⟩
  · intro i j row col
    have reads := left.reads right same fits (fun i j => sizeT (i * other.cols + j)) fun _ _ => rfl
    refine ⟨_, ?_, sum_loop reads row col⟩
    exact (congrArg (data[·]?) (reads.target_eq i j row col)).trans (holds.element i j row col)

/-- A result whose number of elements wraps around lacks the element right after its data. -/
theorem fits_of_multiplies (multiplies : Multiplies this other) : this.rows * other.cols ≤ maxSize := by
  obtain ⟨result, multiplied, _, _, _, elements⟩ := multiplies
  obtain ⟨_, bounded, data, ran, rfl⟩ := matmul_eq_some_iff.mp multiplied
  have length : data.length = sizeT (this.rows * other.cols) := by
    rw [products_length rfl ran, blank, List.length_replicate]
  by_contra exceeds
  have wraps : sizeT (this.rows * other.cols) < this.rows * other.cols := by omega
  have positive : 0 < other.cols := by
    refine Nat.pos_of_ne_zero ?_
    intro none
    rw [none, Nat.mul_zero] at exceeds
    exact exceeds (Nat.zero_le maxSize)
  obtain ⟨value, read, _⟩ := elements (data.length / other.cols) (data.length % other.cols)
    ((Nat.div_lt_iff_lt_mul positive).mpr (length ▸ wraps)) (Nat.mod_lt _ positive)
  have here : sizeT (data.length / other.cols * other.cols + data.length % other.cols) = data.length := by
    rw [Nat.div_add_mod']
    exact sizeT_eq (length ▸ bounded)
  have outside : data[sizeT (data.length / other.cols * other.cols + data.length % other.cols)]? = some value := read
  rw [here, List.getElem?_eq_none (Nat.le_refl _)] at outside
  cases outside

theorem matmul_multiplies_iff (left : FromRowMajor this) (right : FromRowMajor other)
    (same : this.cols = other.rows) : Multiplies this other ↔ this.rows * other.cols ≤ maxSize :=
  ⟨fits_of_multiplies, multiplies_of_fits left right same⟩

theorem matmul_multiplies_transposed :
    Multiplies (transpose { rows := 2, cols := 1, data := [1, 2] } : Tensor2D Float32)
      { rows := 2, cols := 2, data := [3, 4, 5, 6] } :=
  (matmul_multiplies_iff (.transpose (.rowMajor 2 1 [1, 2] rfl (by decide)))
    (.rowMajor 2 2 [3, 4, 5, 6] rfl (by decide)) rfl).mpr (by decide)

/-- The number of elements of the result, `2 ^ 64`, wraps around to zero. -/
theorem matmul_wraps :
    let this : Tensor2D Float32 := { rows := 4294967296, cols := 1, data := List.replicate 4294967296 1 }
    let other : Tensor2D Float32 := { rows := 1, cols := 4294967296, data := List.replicate 4294967296 1 }
    FromRowMajor this ∧ FromRowMajor other ∧ this.cols = other.rows ∧ ¬ Multiplies this other := by
  have length : (List.replicate 4294967296 (1 : Float32)).length = 4294967296 := List.length_replicate
  refine ⟨.rowMajor _ _ _ ?_ ?_, .rowMajor _ _ _ ?_ ?_, rfl, ?_⟩
  · rw [length]
  · rw [length]
    decide
  · rw [length]
  · rw [length]
    decide
  · intro multiplies
    exact absurd (fits_of_multiplies multiplies) (by decide)

end Product

end KnowledgeAcquisition.Proof.MachineLearning
