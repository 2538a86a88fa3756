import KnowledgeAcquisition.Library.Trace
import KnowledgeAcquisition.MachineLearning.DataLoader
import KnowledgeAcquisition.Proof.MachineLearning.DenseLayer

/-!
# Epochs

Whenever an epoch begins the indices are a permutation of the rows, and the batches are the rows in the order of the
indices, cut into pieces.
-/

namespace KnowledgeAcquisition.Proof.MachineLearning
open KnowledgeAcquisition.MachineLearning Library Tensor2D DataLoader

variable {α : Type*} {tensor target source : Tensor2D α} {n rows cols features outputs : Nat}

def rowOf (tensor : Tensor2D α) (i : Nat) : List (Option α) := (List.range tensor.cols).map (tensor.atValue i)

def rowPair (inputs targets : Tensor2D α) (i : Nat) : List (Option α) × List (Option α) :=
  (rowOf inputs i, rowOf targets i)

theorem IsRowMajor.atValue_data (rowMajor : IsRowMajor rows cols tensor) {i j : Nat} (row : i < rows) (col : j < cols) :
    tensor.atValue i j = tensor.data[i * cols + j]? := by
  rw [atValue, rowMajor.atIndex_eq row col, Option.bind_some]

theorem IsRowMajor.atValue_some (rowMajor : IsRowMajor rows cols tensor) {i j : Nat} (row : i < rows) (col : j < cols) :
    ∃ value, tensor.atValue i j = some value := by
  have inside : i * cols + j < tensor.data.length := rowMajor.length_eq ▸ flat_lt row col
  exact ⟨_, (rowMajor.atValue_data row col).trans (List.getElem?_eq_getElem inside)⟩

theorem IsRowMajor.rowOf_congr {tensor' : Tensor2D α} {rows' i i' : Nat} (rowMajor : IsRowMajor rows cols tensor)
    (rowMajor' : IsRowMajor rows' cols tensor') (same : ∀ j, j < cols → tensor.atValue i j = tensor'.atValue i' j) :
    rowOf tensor i = rowOf tensor' i' := by
  rw [rowOf, rowOf, rowMajor.cols_eq, rowMajor'.cols_eq]
  exact List.map_congr_left fun j inside => same j (List.mem_range.mp inside)

theorem IsRowMajor.atAssign_spec (rowMajor : IsRowMajor rows cols tensor) {i j : Nat} (row : i < rows) (col : j < cols)
    (value : α) : ∃ next, tensor.atAssign i j value = some next ∧ IsRowMajor rows cols next ∧
      ∀ i' j', i' < rows → j' < cols →
        next.atValue i' j' = if i' = i ∧ j' = j then some value else tensor.atValue i' j' := by
  have inside : i * cols + j < tensor.data.length := rowMajor.length_eq ▸ flat_lt row col
  have length : (tensor.data.set (i * cols + j) value).length = rows * cols := by
    rw [List.length_set, rowMajor.length_eq]
  have rowMajor' := rowMajor.replace length
  refine ⟨_, ?_, rowMajor', ?_⟩
  · rw [atAssign, rowMajor.atIndex_eq row col, Option.bind_some, store, if_pos inside]
    rfl
  · intro i' j' row' col'
    rw [rowMajor'.atValue_data row' col', rowMajor.atValue_data row' col']
    by_cases here : i' = i ∧ j' = j
    · obtain ⟨rfl, rfl⟩ := here
      rw [if_pos ⟨rfl, rfl⟩]
      exact List.getElem?_set_self inside
    · rw [if_neg here]
      apply List.getElem?_set_ne
      intro same
      obtain ⟨rfl, rfl⟩ := flat_inj col col' same
      exact here ⟨rfl, rfl⟩

theorem copyRow_spec {i row : Nat} (rowMajor : IsRowMajor rows cols target) (inside : i < rows)
    (values : ∀ j, j < cols → ∃ value, source.atValue row j = some value) :
    ∃ next, copyRow target source i row cols = some next ∧ IsRowMajor rows cols next ∧
      ∀ i' j', i' < rows → j' < cols →
        next.atValue i' j' = if i' = i then source.atValue row j' else target.atValue i' j' := by
  refine forEach_total (I := fun j (now : Tensor2D α) => IsRowMajor rows cols now ∧ ∀ i' j', i' < rows → j' < cols →
    now.atValue i' j' = if i' = i ∧ j' < j then source.atValue row j' else target.atValue i' j') ?_ ?_ ?_
  · refine ⟨rowMajor, ?_⟩
    intro i' j' _ _
    rw [if_neg (by omega)]
  · rintro j now col ⟨rowMajor', copied⟩
    obtain ⟨value, read⟩ := values j col
    obtain ⟨next, assigned, rowMajor'', elements⟩ := rowMajor'.atAssign_spec inside col value
    refine ⟨next, ?_, rowMajor'', ?_⟩
    · rw [read]
      exact assigned
    · intro i' j' row' col'
      rw [elements i' j' row' col', copied i' j' row' col']
      by_cases here : i' = i ∧ j' = j
      · obtain ⟨rfl, rfl⟩ := here
        rw [if_pos ⟨rfl, rfl⟩, if_pos ⟨rfl, Nat.lt_succ_self _⟩, read]
      · have same : (i' = i ∧ j' < j + 1) = (i' = i ∧ j' < j) := propext (by omega)
        rw [if_neg here]
        simp only [same]
  · rintro last ⟨rowMajor', copied⟩
    refine ⟨rowMajor', ?_⟩
    intro i' j' row' col'
    rw [copied i' j' row' col']
    simp only [col', and_true]

/-- The indices are a permutation of the rows, of which so many have been handed out. -/
structure Serves (inputs targets : Tensor2D α) (n batchSize : Nat) (loader : DataLoader α) : Prop where
  inputs_eq : loader.inputs = inputs
  targets_eq : loader.targets = targets
  batchSize_eq : loader.batchSize = batchSize
  numSamples_eq : loader.numSamples = n
  within : loader.currentIndex ≤ n
  permuted : loader.indices.Perm (List.range n)

variable {inputs targets : Tensor2D α} {batchSize : Nat} {loader : DataLoader α}

theorem Serves.indices_length (serves : Serves inputs targets n batchSize loader) : loader.indices.length = n :=
  serves.permuted.length_eq.trans List.length_range

theorem Serves.index_at (serves : Serves inputs targets n batchSize loader) {k : Nat} (inside : k < n) :
    ∃ row, loader.indices[k]? = some row ∧ row < n := by
  have found : k < loader.indices.length := serves.indices_length.symm ▸ inside
  refine ⟨loader.indices[k], List.getElem?_eq_getElem found, ?_⟩
  exact List.mem_range.mp (serves.permuted.mem_iff.mp (List.getElem_mem found))

def rowPairs (batch : Tensor2D α × Tensor2D α) : List (List (Option α) × List (Option α)) :=
  (List.range batch.1.rows).map (rowPair batch.1 batch.2)

def Copied (loader : DataLoader α) (source batch : Tensor2D α) (cols k : Nat) : Prop :=
  ∀ i row, i < k → loader.indices[loader.currentIndex + i]? = some row →
    ∀ j, j < cols → batch.atValue i j = source.atValue row j

theorem Copied.next {batch batch' : Tensor2D α} {k row : Nat} (copied : Copied loader source batch cols k)
    (inside : k < rows) (found : loader.indices[loader.currentIndex + k]? = some row)
    (elements : ∀ i j, i < rows → j < cols →
      batch'.atValue i j = if i = k then source.atValue row j else batch.atValue i j) :
    Copied loader source batch' cols (k + 1) := by
  intro i row' early found' j col
  rw [elements i j (by omega) col]
  by_cases here : i = k
  · subst here
    cases found.symm.trans found'
    exact if_pos rfl
  · rw [if_neg here]
    exact copied i row' (by omega) found' j col

variable [Zero α]

theorem new_isRowMajor (fits : rows * cols ≤ maxSize) :
    ∃ tensor : Tensor2D α, Tensor2D.new rows cols 0 = some tensor ∧ IsRowMajor rows cols tensor := by
  have small : ¬ sizeT (rows * cols) > maxSize := Nat.not_lt.mpr ((sizeT_eq fits).symm ▸ fits)
  exact ⟨_, if_neg small, rfl, rfl, rfl, List.length_replicate.trans (sizeT_eq fits), fits⟩

theorem nextBatch_none (serves : Serves inputs targets n batchSize loader) (finished : loader.currentIndex = n) :
    loader.nextBatch = some (none, loader) := by
  have last : loader.hasNext = false := by
    rw [hasNext, finished, serves.numSamples_eq]
    exact decide_eq_false (Nat.lt_irrefl n)
  rw [nextBatch, last]
  rfl

section Batch

variable (inputsRowMajor : IsRowMajor n features inputs) (targetsRowMajor : IsRowMajor n outputs targets)

include inputsRowMajor targetsRowMajor

omit [Zero α] in
theorem fill_spec {count : Nat} {first second : Tensor2D α} (serves : Serves inputs targets n batchSize loader)
    (inside : loader.currentIndex + count ≤ n) (rowMajor : IsRowMajor count features first)
    (rowMajor' : IsRowMajor count outputs second) :
    ∃ batch : Tensor2D α × Tensor2D α, (forEach count (first, second) fun (batchInputs, batchTargets) i =>
        (loader.indices[loader.currentIndex + i]?).bind fun originalRowIdx => do
          let batchInputs ← copyRow batchInputs inputs i originalRowIdx features
          let batchTargets ← copyRow batchTargets targets i originalRowIdx outputs
          some (batchInputs, batchTargets)) = some batch ∧
      IsRowMajor count features batch.1 ∧ IsRowMajor count outputs batch.2 ∧
      Copied loader inputs batch.1 features count ∧ Copied loader targets batch.2 outputs count := by
  refine forEach_total (I := fun k (batch : Tensor2D α × Tensor2D α) =>
    IsRowMajor count features batch.1 ∧ IsRowMajor count outputs batch.2 ∧
      Copied loader inputs batch.1 features k ∧ Copied loader targets batch.2 outputs k) ?_ ?_ fun _ inv => inv
  · exact ⟨rowMajor, rowMajor', fun i row none => absurd none (Nat.not_lt_zero i),
      fun i row none => absurd none (Nat.not_lt_zero i)⟩
  · rintro k ⟨first, second⟩ within ⟨rowMajor, rowMajor', copied, copied'⟩
    obtain ⟨row, found, row_lt⟩ := serves.index_at (k := loader.currentIndex + k) (by omega)
    obtain ⟨first', copyFirst, isRowMajor, firstRows⟩ := copyRow_spec rowMajor within
      fun j col => inputsRowMajor.atValue_some row_lt col
    obtain ⟨second', copySecond, isRowMajor', secondRows⟩ := copyRow_spec rowMajor' within
      fun j col => targetsRowMajor.atValue_some row_lt col
    refine ⟨(first', second'), ?_, isRowMajor, isRowMajor', copied.next within found firstRows,
      copied'.next within found secondRows⟩
    simp only [found, copyFirst, copySecond, Option.bind_eq_bind, Option.bind_some]

omit [Zero α] in
theorem rowPairs_of_copied {count : Nat} {batch : Tensor2D α × Tensor2D α}
    (serves : Serves inputs targets n batchSize loader) (inside : loader.currentIndex + count ≤ n)
    (rowMajor : IsRowMajor count features batch.1) (rowMajor' : IsRowMajor count outputs batch.2)
    (copied : Copied loader inputs batch.1 features count) (copied' : Copied loader targets batch.2 outputs count) :
    rowPairs batch = ((loader.indices.drop loader.currentIndex).take count).map (rowPair inputs targets) := by
  rw [rowPairs, rowMajor.rows_eq]
  apply List.ext_getElem?
  intro i
  by_cases early : i < count
  · obtain ⟨row, found, _⟩ := serves.index_at (k := loader.currentIndex + i) (by omega)
    have first := copied i row early found
    have second := copied' i row early found
    rw [List.getElem?_map, List.getElem?_range early, List.getElem?_map, List.getElem?_take, if_pos early,
      List.getElem?_drop, found, Option.map_some, Option.map_some, rowPair, rowPair,
      rowMajor.rowOf_congr inputsRowMajor first, rowMajor'.rowOf_congr targetsRowMajor second]
  · rw [List.getElem?_eq_none (by simpa using early), List.getElem?_eq_none]
    simp only [List.length_map, List.length_take]
    omega

theorem nextBatch_some (serves : Serves inputs targets n batchSize loader) (unfinished : loader.currentIndex < n) :
    ∃ batch, loader.nextBatch =
        some (some batch,
          { loader with currentIndex := loader.currentIndex + min batchSize (n - loader.currentIndex) }) ∧
      IsRowMajor (min batchSize (n - loader.currentIndex)) features batch.1 ∧
      IsRowMajor (min batchSize (n - loader.currentIndex)) outputs batch.2 ∧
      rowPairs batch = ((loader.indices.drop loader.currentIndex).take
        (min batchSize (n - loader.currentIndex))).map (rowPair inputs targets) := by
  set actual := min batchSize (n - loader.currentIndex) with actual_eq
  have fewer : actual ≤ n := by omega
  obtain ⟨batchInputs, madeInputs, blankInputs⟩ := @new_isRowMajor α actual features _
    (Nat.le_trans (Nat.mul_le_mul_right _ fewer) inputsRowMajor.fits)
  obtain ⟨batchTargets, madeTargets, blankTargets⟩ := @new_isRowMajor α actual outputs _
    (Nat.le_trans (Nat.mul_le_mul_right _ fewer) targetsRowMajor.fits)
  have inside : loader.currentIndex + actual ≤ n := by omega
  obtain ⟨batch, filled, rowMajor, rowMajor', copied, copied'⟩ :=
    fill_spec inputsRowMajor targetsRowMajor serves inside blankInputs blankTargets
  refine ⟨batch, ?_, rowMajor, rowMajor',
    rowPairs_of_copied inputsRowMajor targetsRowMajor serves inside rowMajor rowMajor' copied copied'⟩
  have next : loader.hasNext = true := by
    rw [hasNext, serves.numSamples_eq]
    exact decide_eq_true unfinished
  rw [nextBatch, next]
  simp only [Bool.not_true, Bool.false_eq_true, if_false, serves.inputs_eq, serves.targets_eq, serves.batchSize_eq,
    serves.numSamples_eq, inputsRowMajor.cols_eq, targetsRowMajor.cols_eq, ← actual_eq, madeInputs, madeTargets,
    Option.bind_eq_bind, Option.bind_some]
  exact congrArg (Option.bind · _) filled

/-! ## An epoch -/

omit [Zero α] inputsRowMajor targetsRowMajor in
theorem Serves.advance (serves : Serves inputs targets n batchSize loader) (count : Nat)
    (inside : loader.currentIndex + count ≤ n) :
    Serves inputs targets n batchSize { loader with currentIndex := loader.currentIndex + count } :=
  ⟨serves.inputs_eq, serves.targets_eq, serves.batchSize_eq, serves.numSamples_eq, inside, serves.permuted⟩

structure Yields (batchSize : Nat) (loader : DataLoader α) (batches : List (Tensor2D α × Tensor2D α)) : Prop where
  calls : ∀ k, ∃ after, loader.nextBatches k = some ((batches.map some ++ List.replicate k none).take k, after)
  same_rows : ∀ batch ∈ batches, batch.2.rows = batch.1.rows
  full : ∀ batch ∈ batches.dropLast, batch.1.rows = batchSize

def ceiling (k b : Nat) : Nat := (k + b - 1) / b

omit [Zero α] inputsRowMajor targetsRowMajor in
theorem ceiling_zero {b : Nat} (positive : 0 < b) : ceiling 0 b = 0 := by
  rw [ceiling, Nat.zero_add]
  exact Nat.div_eq_of_lt (Nat.sub_one_lt (Nat.ne_of_gt positive))

omit [Zero α] inputsRowMajor targetsRowMajor in
theorem ceiling_succ {k b : Nat} (positive : 0 < b) (some_left : 0 < k) : ceiling k b = ceiling (k - min b k) b + 1 := by
  rcases Nat.le_total b k with enough | few
  · rw [Nat.min_eq_left enough, ceiling, ceiling, ← Nat.add_div_right _ positive]
    congr 1
    omega
  · rw [Nat.min_eq_right few, Nat.sub_self, ceiling_zero positive, ceiling]
    exact (Nat.div_eq_iff positive).mpr (by omega)

omit inputsRowMajor targetsRowMajor in
theorem nextBatches_none (serves : Serves inputs targets n batchSize loader) (finished : loader.currentIndex = n)
    (k : Nat) : loader.nextBatches k = some (List.replicate k none, loader) := by
  induction k with
  | zero => rfl
  | succ k ih =>
      rw [nextBatches, nextBatch_none serves finished]
      simp only [Option.bind_eq_bind, Option.bind_some, ih, List.replicate_succ]

omit [Zero α] inputsRowMajor targetsRowMajor in
theorem take_append_replicate {β : Type*} (made : List β) (b : β) {k m m' : Nat} (enough : k ≤ m) (enough' : k ≤ m') :
    (made ++ List.replicate m b).take k = (made ++ List.replicate m' b).take k := by
  rw [List.take_append, List.take_append, List.take_replicate, List.take_replicate,
    Nat.min_eq_left (Nat.le_trans (Nat.sub_le _ _) enough), Nat.min_eq_left (Nat.le_trans (Nat.sub_le _ _) enough')]

omit inputsRowMajor targetsRowMajor in
theorem Yields.nil (serves : Serves inputs targets n batchSize loader) (finished : loader.currentIndex = n) :
    Yields batchSize loader [] := by
  refine ⟨?_, nofun, nofun⟩
  intro k
  refine ⟨loader, ?_⟩
  rw [nextBatches_none serves finished, List.map_nil, List.nil_append, List.take_replicate, Nat.min_self]

omit inputsRowMajor targetsRowMajor in
theorem Yields.cons {after : DataLoader α} {batch : Tensor2D α × Tensor2D α} {batches : List (Tensor2D α × Tensor2D α)}
    (yields : Yields batchSize after batches) (made : loader.nextBatch = some (some batch, after))
    (rows : batch.2.rows = batch.1.rows) (full : batches ≠ [] → batch.1.rows = batchSize) :
    Yields batchSize loader (batch :: batches) := by
  refine ⟨?_, List.forall_mem_cons.mpr ⟨rows, yields.same_rows⟩, ?_⟩
  · intro k
    cases k with
    | zero => exact ⟨loader, rfl⟩
    | succ k =>
        obtain ⟨last, calls⟩ := yields.calls k
        refine ⟨last, ?_⟩
        rw [nextBatches, made]
        simp only [Option.bind_eq_bind, Option.bind_some, calls, List.map_cons, List.cons_append, List.take_succ_cons,
          take_append_replicate _ _ (Nat.le_refl k) (Nat.le_succ k)]
  · cases batches with
    | nil => nofun
    | cons next batches =>
        rw [List.dropLast_cons_cons]
        exact List.forall_mem_cons.mpr ⟨full (List.cons_ne_nil _ _), yields.full⟩

theorem epoch_yields (positive : 0 < batchSize) (serves : Serves inputs targets n batchSize loader) :
    ∃ batches, Yields batchSize loader batches ∧ batches.length = ceiling (n - loader.currentIndex) batchSize ∧
      batches.flatMap rowPairs = (loader.indices.drop loader.currentIndex).map (rowPair inputs targets) := by
  have none_left := ceiling_zero positive
  induction remaining : n - loader.currentIndex using Nat.strong_induction_on generalizing loader with
  | _ left ih =>
      rcases Nat.eq_or_lt_of_le serves.within with finished | unfinished
      · refine ⟨[], .nil serves finished, ?_, ?_⟩
        · rw [← remaining, finished, Nat.sub_self, none_left, List.length_nil]
        · rw [finished, List.drop_eq_nil_of_le (Nat.le_of_eq serves.indices_length)]
          rfl
      · obtain ⟨batch, made, rowMajor, rowMajor', pairs⟩ :=
          nextBatch_some inputsRowMajor targetsRowMajor serves unfinished
        rw [remaining] at made rowMajor rowMajor' pairs
        have serves' := serves.advance (min batchSize left) (by omega)
        obtain ⟨batches, yields, length, rest⟩ := ih (left - min batchSize left) (by omega) serves'
          (by dsimp only; omega)
        have full : batches ≠ [] → batch.1.rows = batchSize := by
          intro nonempty
          have more : left - min batchSize left ≠ 0 := by
            intro none
            rw [none, none_left] at length
            exact nonempty (List.eq_nil_of_length_eq_zero length)
          rw [rowMajor.rows_eq]
          omega
        refine ⟨batch :: batches, yields.cons made (rowMajor'.rows_eq.trans rowMajor.rows_eq.symm) full, ?_, ?_⟩
        · rw [List.length_cons, length, ← ceiling_succ positive (by omega)]
        · rw [List.flatMap_cons, pairs, rest, ← List.map_append]
          congr 1
          rw [← List.drop_drop, List.take_append_drop]

omit [Zero α] inputsRowMajor targetsRowMajor in
theorem Serves.reset {shuffled : List Nat} (serves : Serves inputs targets n batchSize loader)
    (permuted : shuffled.Perm (List.range n)) : Serves inputs targets n batchSize (loader.reset shuffled) := by
  refine ⟨serves.inputs_eq, serves.targets_eq, serves.batchSize_eq, serves.numSamples_eq, Nat.zero_le n, ?_⟩
  rw [DataLoader.reset]
  dsimp only
  split
  · exact permuted
  · exact serves.permuted

omit [Zero α] targetsRowMajor in
theorem new_serves (shuffle : Bool) {shuffled : List Nat} (permuted : shuffled.Perm (List.range n)) :
    Serves inputs targets n batchSize (DataLoader.new inputs targets batchSize shuffle shuffled) := by
  rw [DataLoader.new, inputsRowMajor.rows_eq]
  exact Serves.reset ⟨rfl, rfl, rfl, rfl, Nat.zero_le n, List.Perm.refl _⟩ permuted

theorem run_serves (shuffle : Bool) {first : List Nat} (permuted : first.Perm (List.range n)) {history : List Call}
    (permutes : ∀ shuffled, Call.reset shuffled ∈ history → shuffled.Perm (List.range n)) :
    ∃ loader, Trace.run step (DataLoader.new inputs targets batchSize shuffle first) history = some loader ∧
      Serves inputs targets n batchSize loader ∧ (history.getLast? ≠ some .nextBatch → loader.currentIndex = 0) := by
  induction history using List.reverseRecOn with
  | nil => exact ⟨_, rfl, new_serves inputsRowMajor shuffle permuted, fun _ => rfl⟩
  | append_singleton history call ih =>
      obtain ⟨loader, ran, serves, _⟩ := ih fun shuffled member => permutes shuffled (List.mem_append_left _ member)
      rw [Trace.run_append, ran, Option.bind_some, List.getLast?_concat]
      cases call with
      | nextBatch =>
          have again : ¬ (some Call.nextBatch ≠ some .nextBatch) := not_not.mpr rfl
          rcases Nat.eq_or_lt_of_le serves.within with finished | unfinished
          · refine ⟨loader, ?_, serves, fun other => absurd other again⟩
            rw [Trace.run_cons, step, nextBatch_none serves finished]
            rfl
          · obtain ⟨batch, made, _⟩ := nextBatch_some inputsRowMajor targetsRowMajor serves unfinished
            refine ⟨_, ?_, serves.advance (min batchSize (n - loader.currentIndex)) (by omega),
              fun other => absurd other again⟩
            rw [Trace.run_cons, step, made]
            rfl
      | reset shuffled =>
          have permuted' := permutes shuffled (List.mem_append_right _ (List.mem_singleton_self _))
          exact ⟨loader.reset shuffled, rfl, serves.reset permuted', fun _ => rfl⟩

theorem epochs_cover (positive : 0 < batchSize) (shuffle : Bool) {first : List Nat}
    (permuted : first.Perm (List.range n)) {history : List Call}
    (permutes : ∀ shuffled, Call.reset shuffled ∈ history → shuffled.Perm (List.range n)) :
    ∃ loader, Trace.run step (DataLoader.new inputs targets batchSize shuffle first) history = some loader ∧
      (history.getLast? ≠ some .nextBatch → ∃ batches, Yields batchSize loader batches ∧
        batches.length = ceiling n batchSize ∧
        (batches.flatMap rowPairs).Perm ((List.range n).map (rowPair inputs targets))) := by
  obtain ⟨loader, ran, serves, fresh⟩ := run_serves inputsRowMajor targetsRowMajor shuffle permuted permutes
  refine ⟨loader, ran, ?_⟩
  intro begins
  obtain ⟨batches, yields, length, pairs⟩ := epoch_yields inputsRowMajor targetsRowMajor positive serves
  rw [fresh begins] at length pairs
  refine ⟨batches, yields, length, ?_⟩
  rw [pairs]
  exact serves.permuted.map _

end Batch

theorem epochs_cover_three :
    let inputs : Tensor2D Int := { rows := 3, cols := 2, data := [1, 2, 3, 4, 5, 6] }
    let targets : Tensor2D Int := { rows := 3, cols := 1, data := [7, 8, 9] }
    ∃ loader, Trace.run step (DataLoader.new inputs targets 2 true [2, 0, 1]) [.nextBatch, .reset [1, 2, 0]] = some loader ∧
      ([Call.nextBatch, .reset [1, 2, 0]].getLast? ≠ some .nextBatch → ∃ batches, Yields 2 loader batches ∧
        batches.length = ceiling 3 2 ∧
        (batches.flatMap rowPairs).Perm ((List.range 3).map (rowPair inputs targets))) := by
  intro inputs targets
  have inputsRowMajor : IsRowMajor 3 2 inputs := ⟨rfl, rfl, rfl, rfl, by decide⟩
  have targetsRowMajor : IsRowMajor 3 1 targets := ⟨rfl, rfl, rfl, rfl, by decide⟩
  refine epochs_cover inputsRowMajor targetsRowMajor (by decide) true (by decide) ?_
  intro shuffled member
  simp only [List.mem_cons, reduceCtorEq, Call.reset.injEq, List.not_mem_nil, or_false, false_or] at member
  subst member
  decide

end KnowledgeAcquisition.Proof.MachineLearning
