import KnowledgeAcquisition.MachineLearning.Training
import KnowledgeAcquisition.Proof.MachineLearning.AdamOptimizer
import KnowledgeAcquisition.Proof.MachineLearning.Loss
import Mathlib

/-!
# Runs of the training

Whatever the optimizer does to the parameters, an epoch trains on batches that hold each row of the training set once, and
no row of the validation set. The parameters at the end are those that training on all the batches of the epochs one after
another leaves.
-/

namespace KnowledgeAcquisition.Proof.MachineLearning
open KnowledgeAcquisition.MachineLearning Library Tensor2D DataLoader Training

universe u

variable {ω α : Type u} {a b c n size batch : Nat}

section Passes

variable [CommRing α] [LinearOrder α] (coefficients : Coefficients α) {layer : Layer α} {layers : Sequential α}
  {input : Tensor2D α}

structure Handles (coefficients : Coefficients α) (size a b : Nat) (layer : Layer α) (input output : Tensor2D α)
    (forwarded : Layer α) : Prop where
  forward : layer.forward coefficients input = some (output, forwarded)
  rowMajor : IsRowMajor size b output
  shape : FromTo a b forwarded
  same : SameParameters layer forwarded
  backward : ∀ gradient, IsRowMajor size b gradient → ∃ dInput after,
    forwarded.backward coefficients gradient = some (dInput, after) ∧ IsRowMajor size a dInput ∧ FromTo a b after ∧
      SameParameters layer after

theorem layer_handles (shape : FromTo a b layer) (rowMajor : IsRowMajor size a input) (fits : size * b ≤ maxSize) :
    ∃ output forwarded, Handles coefficients size a b layer input output forwarded := by
  cases layer with
  | dense layer =>
      obtain ⟨output, computed, outputRowMajor, -⟩ := forward_spec shape rowMajor fits
      have cached : HasFeatures a b { layer with inputCache := input } :=
        ⟨shape.weights, shape.bias, shape.dWeights, shape.dBias⟩
      refine ⟨output, .dense { layer with inputCache := input }, ?_, outputRowMajor, cached, ⟨rfl, rfl⟩, ?_⟩
      · rw [Layer.forward, computed]
        rfl
      · intro gradient gradientRowMajor
        obtain ⟨dInput, dWeights, dBias, passed, dInputRowMajor, dWeightsRowMajor, dBiasRowMajor, -⟩ :=
          backward_spec cached rowMajor gradientRowMajor
        refine ⟨dInput, .dense { layer with inputCache := input, dWeights, dBias }, ?_, dInputRowMajor,
          ⟨shape.weights, shape.bias, dWeightsRowMajor, dBiasRowMajor⟩, ⟨rfl, rfl⟩⟩
        rw [Layer.backward, passed]
        rfl
  | relu _ =>
      obtain rfl : a = b := shape
      obtain ⟨output, computed, outputRowMajor, -⟩ := relu_spec rowMajor
      refine ⟨output, .relu output, ?_, outputRowMajor, rfl, trivial, ?_⟩
      · rw [Layer.forward, computed]
        rfl
      · intro gradient gradientRowMajor
        obtain ⟨dInput, passed, dInputRowMajor, -⟩ := reluBackward_spec outputRowMajor gradientRowMajor
        refine ⟨dInput, .relu output, ?_, dInputRowMajor, rfl, trivial⟩
        rw [Layer.backward, passed]
        rfl
  | leakyReLU _ =>
      obtain rfl : a = b := shape
      obtain ⟨output, computed, outputRowMajor, -⟩ := leakyForward_spec coefficients.leak rowMajor
      refine ⟨output, .leakyReLU input, ?_, outputRowMajor, rfl, trivial, ?_⟩
      · rw [Layer.forward, computed]
        rfl
      · intro gradient gradientRowMajor
        obtain ⟨dInput, passed, dInputRowMajor, -⟩ :=
          leakyBackward_spec coefficients.leak rowMajor gradientRowMajor
        refine ⟨dInput, .leakyReLU input, ?_, dInputRowMajor, rfl, trivial⟩
        rw [Layer.backward, passed]
        rfl
  | sigmoid _ =>
      obtain rfl : a = b := shape
      obtain ⟨output, computed, outputRowMajor, -⟩ := sigmoid_spec coefficients.logistic rowMajor
      refine ⟨output, .sigmoid output, ?_, outputRowMajor, rfl, trivial, ?_⟩
      · rw [Layer.forward, computed]
        rfl
      · intro gradient gradientRowMajor
        obtain ⟨dInput, passed, dInputRowMajor, -⟩ :=
          sigmoidBackward_spec coefficients.logistic outputRowMajor gradientRowMajor
        refine ⟨dInput, .sigmoid output, ?_, dInputRowMajor, rfl, trivial⟩
        rw [Layer.backward, passed]
        rfl

theorem stack_handles (small : size ≤ batch) (stack : Stack batch a c layers) (rowMajor : IsRowMajor size a input) :
    ∃ output forwarded, Sequential.forward coefficients layers input = some (output, forwarded) ∧
      IsRowMajor size c output ∧ Stack batch a c forwarded ∧ List.Forall₂ SameParameters layers forwarded ∧
      ∀ gradient, IsRowMajor size c gradient → ∃ dInput after,
        Sequential.backward coefficients forwarded gradient = some (dInput, after) ∧ IsRowMajor size a dInput ∧
          Stack batch a c after ∧ List.Forall₂ SameParameters layers after := by
  induction stack generalizing input with
  | nil a =>
      exact ⟨input, [], rfl, rowMajor, .nil a, .nil, fun gradient gradientRowMajor =>
        ⟨gradient, [], rfl, gradientRowMajor, .nil a, .nil⟩⟩
  | @cons a b c layer layers shape fits _ ih =>
      obtain ⟨middle, forwarded, handles⟩ :=
        layer_handles coefficients shape rowMajor (le_trans (Nat.mul_le_mul_right b small) fits)
      obtain ⟨output, forwardeds, computed, outputRowMajor, stack, same, backward⟩ := ih handles.rowMajor
      refine ⟨output, forwarded :: forwardeds, ?_, outputRowMajor, .cons handles.shape fits stack, .cons handles.same same, ?_⟩
      · simp [Sequential.forward, handles.forward, computed]
      · intro gradient gradientRowMajor
        obtain ⟨dMiddle, afters, passed, dMiddleRowMajor, stack', same'⟩ := backward gradient gradientRowMajor
        obtain ⟨dInput, after, passed', dInputRowMajor, shape', here⟩ := handles.backward dMiddle dMiddleRowMajor
        refine ⟨dInput, after :: afters, ?_, dInputRowMajor, .cons shape' fits stack', .cons here same'⟩
        simp [Sequential.backward, passed, passed']

end Passes

theorem same_refl (layers : Sequential α) : List.Forall₂ SameParameters layers layers :=
  List.forall₂_same.mpr fun layer _ => by cases layer <;> simp [SameParameters]

theorem same_fork {layers others thirds : Sequential α} (same : List.Forall₂ SameParameters layers others)
    (same' : List.Forall₂ SameParameters layers thirds) : List.Forall₂ SameParameters others thirds := by
  induction same generalizing thirds with
  | nil => exact same'
  | @cons layer other _ _ here _ ih =>
      cases same' with
      | @cons _ third _ _ here' rest' =>
          refine .cons ?_ (ih rest')
          cases layer <;> cases other <;> cases third <;> simp_all [SameParameters]

section Same

variable [CommRing α] [LinearOrder α] {coefficients : Coefficients α} {layer other : Layer α}
  {layers others : Sequential α}

omit [LinearOrder α] in
theorem IsRowMajor.fillZero_eq {tensor other : Tensor2D α} (rowMajor : IsRowMajor a b tensor)
    (rowMajor' : IsRowMajor a b other) : tensor.fillZero = other.fillZero := by
  apply rowMajor.fillZero.eq_of_matrix rowMajor'.fillZero
  rw [matrixOf_fillZero rowMajor, matrixOf_fillZero rowMajor']

/-- `zero_grad` and `forward` overwrite all that two layers with the same parameters differ in. -/
theorem zeroGradients_forward_same (shape : FromTo a b layer) (shape' : FromTo a b other)
    (same : SameParameters layer other) (input : Tensor2D α) :
    layer.zeroGradients.forward coefficients input = other.zeroGradients.forward coefficients input := by
  cases layer with
  | dense layer =>
      cases other with
      | dense other =>
          obtain ⟨weights, bias⟩ := same
          simp only [Layer.zeroGradients, Layer.forward, DenseLayer.zeroGradients, DenseLayer.forward, weights, bias,
            IsRowMajor.fillZero_eq shape.dWeights shape'.dWeights, IsRowMajor.fillZero_eq shape.dBias shape'.dBias]
      | _ => cases same
  | _ =>
      cases other with
      | dense other => cases same
      | _ => first | rfl | cases same

theorem zeroGrad_forward_same (stack : Stack batch a c layers) (stack' : Stack batch a c others)
    (same : List.Forall₂ SameParameters layers others) (input : Tensor2D α) :
    layers.zeroGrad.forward coefficients input = others.zeroGrad.forward coefficients input := by
  induction stack generalizing others input with
  | nil a =>
      cases same with
      | nil => rfl
  | @cons a b c layer layers shape fits _ ih =>
      cases same with
      | @cons _ other _ others here rest =>
          cases stack' with
          | @cons _ b' _ _ _ shape' _ stack' =>
              obtain rfl := shape.unique shape' here
              have later := fun middle => ih stack' rest middle
              unfold Sequential.zeroGrad at later ⊢
              simp only [List.map_cons, Sequential.forward, zeroGradients_forward_same shape shape' here, later]

end Same

variable [Field α] [LinearOrder α] {settings : Settings ω α} {Good : ω → Sequential α → Prop}
  {trainee other trained : Trainee ω α} {taken : Tensor2D α × Tensor2D α}

/-- The two differ in the loss, the caches and the gradients only. -/
structure Agree (n a c : Nat) (trainee other : Trainee ω α) : Prop where
  optimizer : trainee.optimizer = other.optimizer
  stack : Stack n a c trainee.model
  stack' : Stack n a c other.model
  same : List.Forall₂ SameParameters trainee.model other.model

/-- The optimizer takes every model that is `Good` for its state to such a model. -/
structure Optimizes (settings : Settings ω α) (n a c : Nat) (Good : ω → Sequential α → Prop) : Prop where
  steps : ∀ optimizer model, Good optimizer model → Stack n a c model → ∃ optimizer' model',
    settings.optimizerStep optimizer model = some (optimizer', model') ∧ Good optimizer' model' ∧ Stack n a c model'
  same : ∀ optimizer model model', Good optimizer model → List.Forall₂ SameParameters model model' → Good optimizer model'

structure Ready (n a c : Nat) (Good : ω → Sequential α → Prop) (trainee : Trainee ω α) : Prop where
  good : Good trainee.optimizer trainee.model
  stack : Stack n a c trainee.model

omit [Field α] [LinearOrder α] in
theorem Agree.fork {third : Trainee ω α} (agree : Agree n a c trainee other) (agree' : Agree n a c trainee third) :
    Agree n a c other third :=
  ⟨agree.optimizer.symm.trans agree'.optimizer, agree.stack', agree'.stack', same_fork agree.same agree'.same⟩

omit [Field α] [LinearOrder α] in
theorem Agree.ready (agree : Agree n a c trainee other) (optimizes : Optimizes settings n a c Good)
    (ready : Ready n a c Good trainee) : Ready n a c Good other :=
  ⟨agree.optimizer ▸ optimizes.same _ _ _ ready.good agree.same, agree.stack'⟩

theorem trainBatch_agree (agree : Agree n a c trainee other) (taken : Tensor2D α × Tensor2D α) :
    trainBatch settings trainee taken = trainBatch settings other taken := by
  rw [trainBatch, trainBatch, zeroGrad_forward_same agree.stack agree.stack' agree.same, agree.optimizer]

theorem trainBatch_total (optimizes : Optimizes settings n a c Good) (ready : Ready n a c Good trainee)
    (small : size ≤ n) (inputRowMajor : IsRowMajor size a taken.1) (targetRowMajor : IsRowMajor size c taken.2) :
    ∃ trained, trainBatch settings trainee taken = some trained ∧ Ready n a c Good trained := by
  obtain ⟨pred, forwarded, computed, predRowMajor, _, same, backward⟩ :=
    stack_handles settings.coefficients small ready.stack.zeroGrad inputRowMajor
  obtain ⟨lossGrad, derived, lossGradRowMajor, _⟩ := loss_backward predRowMajor targetRowMajor
  obtain ⟨dInput, after, passed, _, stack, same'⟩ := backward lossGrad lossGradRowMajor
  have good := optimizes.same _ _ _ ready.good (same_trans (same_zeroGrad _) same')
  obtain ⟨optimizer, model, stepped, good', stack'⟩ := optimizes.steps _ _ good stack
  obtain ⟨loss, evaluated⟩ : ∃ loss, MSELoss.forward pred taken.2 = some loss :=
    ⟨_, loss_forward predRowMajor targetRowMajor⟩
  refine ⟨{ optimizer, model, loss }, ?_, good', stack'⟩
  simp [trainBatch, computed, evaluated, derived, passed, stepped]

theorem foldlM_agree (agree : Agree n a c trainee other) {batches : List (Tensor2D α × Tensor2D α)}
    (ran : batches.foldlM (trainBatch settings) trainee = some trained) (after : Ready n a c Good trained) :
    ∃ trained', batches.foldlM (trainBatch settings) other = some trained' ∧ Agree n a c trained trained' ∧
      (trainee.loss = other.loss ∨ batches ≠ [] → trained.loss = trained'.loss) := by
  cases batches with
  | nil =>
      obtain rfl := Option.some.inj ran
      exact ⟨other, rfl, agree, fun same => same.resolve_right fun none => none rfl⟩
  | cons taken batches =>
      refine ⟨trained, ?_, ⟨rfl, after.stack, after.stack, same_refl _⟩, fun _ => rfl⟩
      rw [List.foldlM_cons, ← trainBatch_agree agree taken, ← List.foldlM_cons, ran]

/-! ## An epoch -/

section Data

variable {inputs targets : Tensor2D α} {batchSize : Nat} {loader : DataLoader α} {indices : List Nat}
  (inputsRowMajor : IsRowMajor n a inputs) (targetsRowMajor : IsRowMajor n c targets)

include inputsRowMajor targetsRowMajor

omit [LinearOrder α] in
theorem hydrate_spec (permuted : indices.Perm (List.range n)) {offset samples : Nat} (inside : offset + samples ≤ n) :
    ∃ subset, DatasetUtils.hydrate inputs targets indices offset samples = some subset ∧
      IsRowMajor samples a subset.1 ∧ IsRowMajor samples c subset.2 ∧
      rowPairs subset = ((indices.drop offset).take samples).map (rowPair inputs targets) := by
  let loader : DataLoader α :=
    { inputs, targets, batchSize := samples, shuffle := false, numSamples := n, currentIndex := offset, indices }
  have serves : Serves inputs targets n samples loader := ⟨rfl, rfl, rfl, rfl, Nat.le_of_add_right_le inside, permuted⟩
  have fewer : samples ≤ n := Nat.le_of_add_left_le inside
  obtain ⟨subsetIn, madeIn, blankIn⟩ :=
    @new_isRowMajor α samples a _ (Nat.le_trans (Nat.mul_le_mul_right _ fewer) inputsRowMajor.fits)
  obtain ⟨subsetTgt, madeTgt, blankTgt⟩ :=
    @new_isRowMajor α samples c _ (Nat.le_trans (Nat.mul_le_mul_right _ fewer) targetsRowMajor.fits)
  obtain ⟨subset, filled, rowMajor, rowMajor', copied, copied'⟩ :=
    fill_spec inputsRowMajor targetsRowMajor serves inside blankIn blankTgt
  refine ⟨subset, ?_, rowMajor, rowMajor',
    rowPairs_of_copied inputsRowMajor targetsRowMajor serves inside rowMajor rowMajor' copied copied'⟩
  rw [DatasetUtils.hydrate, inputsRowMajor.cols_eq, targetsRowMajor.cols_eq, madeIn, madeTgt]
  exact filled

structure Epoch (inputs targets : Tensor2D α) (batchSize : Nat) (order : List Nat)
    (batches : List (Tensor2D α × Tensor2D α)) : Prop where
  length : batches.length = ceiling order.length batchSize
  small : ∀ taken ∈ batches, taken.1.rows ≤ batchSize ∧ taken.2.rows = taken.1.rows
  rows : batches.flatMap rowPairs = order.map (rowPair inputs targets)

theorem loop_trains (positive : 0 < settings.batchSize) (optimizes : Optimizes settings batch a c Good)
    (ready : Ready batch a c Good trainee) (fewer : n ≤ batch)
    (serves : Serves inputs targets n settings.batchSize loader) {fuel : Nat}
    (enough : ceiling (n - loader.currentIndex) settings.batchSize < fuel) :
    ∃ batches loader' trained, Loop.run (turn settings) fuel (loader, trainee) = some (loader', trained) ∧
      Serves inputs targets n settings.batchSize loader' ∧ loader'.shuffle = loader.shuffle ∧ Ready batch a c Good trained ∧
      Epoch inputs targets settings.batchSize (loader.indices.drop loader.currentIndex) batches ∧
      batches.foldlM (trainBatch settings) trainee = some trained := by
  induction remaining : n - loader.currentIndex using Nat.strong_induction_on generalizing loader trainee fuel with
  | _ left ih =>
      obtain ⟨fuel, rfl⟩ := Nat.exists_eq_succ_of_ne_zero (Nat.ne_zero_of_lt enough)
      have total : (loader.indices.drop loader.currentIndex).length = left := by
        rw [List.length_drop, serves.indices_length, remaining]
      rcases Nat.eq_or_lt_of_le serves.within with finished | unfinished
      · have none_left : left = 0 := by omega
        refine ⟨[], loader, trainee, ?_, serves, rfl, ready, ⟨?_, nofun, ?_⟩, rfl⟩
        · simp [Loop.run, turn, nextBatch_none serves finished]
        · rw [total, none_left, ceiling_zero positive, List.length_nil]
        · rw [List.eq_nil_of_length_eq_zero (total.trans none_left)]
          rfl
      · obtain ⟨taken, made, rowMajor, rowMajor', pairs⟩ :=
          nextBatch_some inputsRowMajor targetsRowMajor serves unfinished
        rw [remaining] at made rowMajor rowMajor' pairs enough
        set size := min settings.batchSize left with size_eq
        have again : ceiling left settings.batchSize = ceiling (left - size) settings.batchSize + 1 :=
          ceiling_succ positive (by omega)
        have rest : n - (loader.currentIndex + size) = left - size := by omega
        obtain ⟨next, stepped, ready'⟩ := trainBatch_total optimizes ready (by omega) rowMajor rowMajor'
        have enough' : ceiling (n - (loader.currentIndex + size)) settings.batchSize < fuel := by
          rw [rest]
          omega
        obtain ⟨batches, loader', trained, ran, serves', shuffle, ready'', epoch, folded⟩ :=
          ih (left - size) (by omega) ready' (serves.advance size (by omega)) enough' rest
        refine ⟨taken :: batches, loader', trained, ?_, serves', shuffle, ready'', ⟨?_, ?_, ?_⟩, ?_⟩
        · simp [Loop.run, turn, made, stepped, ran]
        · rw [total, again, List.length_cons, epoch.length, List.length_drop, serves.indices_length, rest]
        · refine List.forall_mem_cons.mpr ⟨⟨?_, rowMajor'.rows_eq.trans rowMajor.rows_eq.symm⟩, epoch.small⟩
          exact rowMajor.rows_eq ▸ Nat.min_le_left _ _
        · rw [List.flatMap_cons, pairs, epoch.rows, ← List.map_append, ← List.drop_drop, List.take_append_drop]
        · rw [List.foldlM_cons, stepped]
          exact folded

theorem epoch_trains (positive : 0 < settings.batchSize) (optimizes : Optimizes settings batch a c Good)
    (fewer : n ≤ batch) {fuel : Nat} (enough : ceiling n settings.batchSize < fuel) {shuffled : List Nat}
    (permuted : shuffled.Perm (List.range n)) (serves : Serves inputs targets n settings.batchSize loader)
    (shuffle : loader.shuffle = true) (ready : Ready batch a c Good trainee) :
    ∃ batches loader' left last, epoch settings fuel loader shuffled trainee = some (loader', left) ∧
      Serves inputs targets n settings.batchSize loader' ∧ loader'.shuffle = true ∧ Ready batch a c Good left ∧
      Epoch inputs targets settings.batchSize shuffled batches ∧
      batches.foldlM (trainBatch settings) trainee = some last ∧ Agree batch a c left last ∧
      (0 < n → left.loss = last.loss) := by
  have started : Agree batch a c { trainee with loss := ((100 : Nat) : α) } trainee :=
    ⟨rfl, ready.stack, ready.stack, same_refl _⟩
  have ready₀ : Ready batch a c Good { trainee with loss := ((100 : Nat) : α) } := ⟨ready.good, ready.stack⟩
  obtain ⟨batches, loader', left, ran, serves', shuffle', ready', trained, folded⟩ :=
    loop_trains inputsRowMajor targetsRowMajor positive optimizes ready₀ fewer (serves.reset permuted) enough
  have order : (loader.reset shuffled).indices.drop (loader.reset shuffled).currentIndex = shuffled := by
    simp [DataLoader.reset, shuffle]
  rw [order] at trained
  have nonempty : 0 < n → batches ≠ [] := by
    rintro some_left rfl
    have length := trained.length
    rw [permuted.length_eq, List.length_range, ceiling_succ positive some_left] at length
    cases length
  obtain ⟨last, folded', agree, losses⟩ := foldlM_agree started folded ready'
  exact ⟨batches, loader', left, last, ran, serves', shuffle'.trans shuffle, ready', trained, folded', agree,
    fun some_left => losses (Or.inr (nonempty some_left))⟩

def Evaluated (settings : Settings ω α) (i : Nat) : Prop := i % 10 = 0 ∨ i = settings.totalEpochs - 1

omit inputsRowMajor targetsRowMajor in
theorem evaluate_total {subsets : Subsets α} (stack : Stack batch a c trainee.model) (small : size ≤ batch)
    (positive : 0 < c) (rowMajor : IsRowMajor size a subsets.valIn) (rowMajor' : IsRowMajor size c subsets.valTgt) :
    ∃ evaluated, evaluate settings subsets trainee = some evaluated ∧ Agree batch a c trainee evaluated ∧
      evaluated.loss = trainee.loss := by
  obtain ⟨valPredictions, model, computed, predRowMajor, stack', same, _⟩ :=
    stack_handles settings.coefficients small stack rowMajor
  obtain ⟨accuracy, counted⟩ :
      ∃ accuracy, DatasetUtils.calculateAccuracy settings.threshold valPredictions subsets.valTgt = some accuracy := by
    rw [DatasetUtils.calculateAccuracy, predRowMajor.rows_eq]
    refine (forEach_total (I := fun _ _ => True) (Q := fun _ => True) trivial ?_ fun _ _ => trivial).elim
      fun count counted => ⟨_, congrArg (Option.map _) counted.1⟩
    intro i correct row _
    simp [predRowMajor.atValue_eq row positive, rowMajor'.atValue_eq row positive]
  refine ⟨{ trainee with model }, ?_, ⟨rfl, stack, stack', same⟩, rfl⟩
  simp [evaluate, computed, counted]

omit inputsRowMajor targetsRowMajor in
theorem epochs_cons {evaluation : Trainee ω α → Option (Trainee ω α)} {loader' : DataLoader α} {left : Trainee ω α}
    {fuel : Nat} {shuffled : List Nat} (ran : epoch settings fuel loader shuffled trainee = some (loader', left))
    (stack : Stack batch a c left.model)
    (evaluates : ∃ next, evaluation left = some next ∧ Agree batch a c left next ∧ next.loss = left.loss) (i : Nat)
    (shuffles : List (List Nat)) :
    ∃ next, Agree batch a c left next ∧ next.loss = left.loss ∧
      (epochs settings evaluation fuel i (shuffled :: shuffles) loader trainee = some next ∧
          next.loss < settings.enough ∧ Evaluated settings i ∨
        epochs settings evaluation fuel i (shuffled :: shuffles) loader trainee =
          epochs settings evaluation fuel (i + 1) shuffles loader' next) := by
  by_cases evaluated : i % 10 = 0 ∨ i = settings.totalEpochs - 1
  · obtain ⟨next, computed, agree, loss_eq⟩ := evaluates
    refine ⟨next, agree, loss_eq, ?_⟩
    by_cases early : next.loss < settings.enough
    · refine Or.inl ⟨?_, early, evaluated⟩
      simp [epochs, ran, evaluated, computed, early]
    · apply Or.inr
      simp [epochs, ran, evaluated, computed, early]
  · refine ⟨left, ⟨rfl, stack, stack, same_refl _⟩, rfl, Or.inr ?_⟩
    simp [epochs, ran, evaluated]

theorem epochs_train (positive : 0 < settings.batchSize) (optimizes : Optimizes settings batch a c Good)
    (fewer : n ≤ batch) {evaluation : Trainee ω α → Option (Trainee ω α)}
    (evaluates : ∀ trainee, Ready batch a c Good trainee →
      ∃ evaluated, evaluation trainee = some evaluated ∧ Agree batch a c trainee evaluated ∧ evaluated.loss = trainee.loss)
    {fuel : Nat} (enough : ceiling n settings.batchSize < fuel) {shuffles : List (List Nat)}
    (permuted : ∀ shuffled ∈ shuffles, shuffled.Perm (List.range n)) (i : Nat)
    (serves : Serves inputs targets n settings.batchSize loader) (shuffle : loader.shuffle = true)
    (ready : Ready batch a c Good trainee) :
    ∃ (result : Trainee ω α) (schedule : List (List (Tensor2D α × Tensor2D α))) (trained : Trainee ω α),
      epochs settings evaluation fuel i shuffles loader trainee = some result ∧
      schedule.length ≤ shuffles.length ∧
      (∀ batches ∈ schedule, ∃ shuffled ∈ shuffles, Epoch inputs targets settings.batchSize shuffled batches) ∧
      schedule.flatten.foldlM (trainBatch settings) trainee = some trained ∧ Ready batch a c Good trained ∧
      Agree batch a c trained result ∧ (0 < n → trained.loss = result.loss) ∧
      (schedule.length < shuffles.length →
        result.loss < settings.enough ∧ ∃ k, schedule.length = k + 1 ∧ Evaluated settings (i + k)) := by
  induction shuffles generalizing i loader trainee with
  | nil =>
      exact ⟨trainee, [], trainee, rfl, le_rfl, nofun, rfl, ready, ⟨rfl, ready.stack, ready.stack, same_refl _⟩,
        fun _ => rfl, nofun⟩
  | cons shuffled shuffles ih =>
      have permuted' := permuted shuffled List.mem_cons_self
      obtain ⟨batches, loader', left, last, ran, serves', shuffle', ready', trained, folded', agree, losses⟩ :=
        epoch_trains inputsRowMajor targetsRowMajor positive optimizes fewer enough permuted' serves shuffle ready
      obtain ⟨next, agree', loss_eq, ended | again⟩ :=
        epochs_cons ran ready'.stack (evaluates left ready') i shuffles
      · refine ⟨next, [batches], last, ended.1, Nat.succ_le_succ (Nat.zero_le _),
          List.forall_mem_singleton.mpr ⟨shuffled, List.mem_cons_self, trained⟩, ?_, agree.ready optimizes ready',
          agree.fork agree', ?_, fun _ => ⟨ended.2.1, 0, rfl, ended.2.2⟩⟩
        · simpa using folded'
        · intro some_left
          rw [← losses some_left, loss_eq]
      · -- The same batches are trained on from what the evaluation leaves and from what the epoch leaves.
        obtain ⟨result, schedule, end', ran'', length, follow, folded'', ready'', agree'', losses'', ends⟩ :=
          ih (fun shuffled member => permuted shuffled (List.mem_cons_of_mem _ member)) (i + 1) serves' shuffle'
            (agree'.ready optimizes ready')
        obtain ⟨final, folded₃, agree₃, losses₃⟩ := foldlM_agree (agree'.fork agree) folded'' ready''
        refine ⟨result, batches :: schedule, final, again.trans ran'', Nat.succ_le_succ length,
          List.forall_mem_cons.mpr ⟨⟨shuffled, List.mem_cons_self, trained⟩, fun later member => ?_⟩, ?_,
          agree₃.ready optimizes ready'', agree₃.fork agree'', ?_, ?_⟩
        · obtain ⟨shuffled, member', epoch⟩ := follow later member
          exact ⟨shuffled, List.mem_cons_of_mem _ member', epoch⟩
        · rw [List.flatten_cons, List.foldlM_append, folded']
          exact folded₃
        · intro some_left
          rw [← losses₃ (Or.inl (loss_eq.trans (losses some_left))), losses'' some_left]
        · intro fewer
          obtain ⟨below, k, length, evaluated⟩ := ends (Nat.lt_of_succ_lt_succ fewer)
          exact ⟨below, k + 1, congrArg Nat.succ length, by rwa [← Nat.add_assoc, Nat.add_right_comm]⟩

omit [LinearOrder α] in
theorem trainTestSplit_spec {valSamples : Nat} (small : n ≤ maxSize) (fewer : valSamples ≤ n)
    (permuted : indices.Perm (List.range n)) :
    ∃ subsets, DatasetUtils.trainTestSplit inputs targets valSamples indices = some subsets ∧
      IsRowMajor (n - valSamples) a subsets.trainIn ∧ IsRowMajor (n - valSamples) c subsets.trainTgt ∧
      IsRowMajor valSamples a subsets.valIn ∧ IsRowMajor valSamples c subsets.valTgt ∧
      (List.range (n - valSamples)).map (rowPair subsets.trainIn subsets.trainTgt) =
        (indices.take (n - valSamples)).map (rowPair inputs targets) := by
  have trainSamples : subT n valSamples = n - valSamples := by
    have bound : maxSize < 18446744073709551616 := by decide
    rw [subT, sizeT, sizeT, Nat.mod_eq_of_lt (show valSamples < 18446744073709551616 by omega)]
    omega
  obtain ⟨⟨trainIn, trainTgt⟩, trained, trainInRowMajor, trainTgtRowMajor, pairs⟩ :=
    hydrate_spec inputsRowMajor targetsRowMajor permuted (show 0 + (n - valSamples) ≤ n by omega)
  obtain ⟨⟨valIn, valTgt⟩, validated, valInRowMajor, valTgtRowMajor, _⟩ :=
    hydrate_spec inputsRowMajor targetsRowMajor permuted (show n - valSamples + valSamples ≤ n by omega)
  refine ⟨{ trainIn, trainTgt, valIn, valTgt }, ?_, trainInRowMajor, trainTgtRowMajor, valInRowMajor, valTgtRowMajor, ?_⟩
  · simp [DatasetUtils.trainTestSplit, inputsRowMajor.rows_eq, trainSamples, trained, validated]
  · rw [rowPairs, trainInRowMajor.rows_eq] at pairs
    exact pairs

/-- What a run of the program does with the rows in `order`, in `most` epochs at most. -/
structure Trains (settings : Settings ω α) (inputs targets : Tensor2D α) (order : List Nat) (most : Nat)
    (trainee result trained : Trainee ω α) (schedule : List (List (Tensor2D α × Tensor2D α))) : Prop where
  length : schedule.length ≤ most
  epochs : ∀ batches ∈ schedule, batches.length = ceiling order.length settings.batchSize ∧
    (∀ taken ∈ batches, taken.1.rows ≤ settings.batchSize ∧ taken.2.rows = taken.1.rows) ∧
    (batches.flatMap rowPairs).Perm (order.map (rowPair inputs targets))
  folded : schedule.flatten.foldlM (trainBatch settings) trainee = some trained
  optimizer : result.optimizer = trained.optimizer
  same : List.Forall₂ SameParameters trained.model result.model
  loss : order ≠ [] → result.loss = trained.loss
  early : schedule.length < most →
    result.loss < settings.enough ∧ ∃ i, schedule.length = i + 1 ∧ Evaluated settings i

theorem program_trains (positive : 0 < settings.batchSize) (columns : 0 < c) (fewer : settings.valSamples ≤ n)
    (optimizes : Optimizes settings n a c Good) (ready : Ready n a c Good trainee) {split first : List Nat}
    (splits : split.Perm (List.range n)) (firsts : first.Perm (List.range (n - settings.valSamples)))
    {shuffles : List (List Nat)} (permuted : ∀ shuffled ∈ shuffles, shuffled.Perm (List.range (n - settings.valSamples)))
    {fuel : Nat} (enough : ceiling (n - settings.valSamples) settings.batchSize < fuel) :
    ∃ result trained schedule, main settings inputs targets fuel split first shuffles trainee = some result ∧
      Trains settings inputs targets (split.take (n - settings.valSamples)) shuffles.length trainee result trained schedule := by
  have small : n ≤ maxSize := Nat.le_trans (Nat.le_mul_of_pos_right n columns) targetsRowMajor.fits
  have order : (split.take (n - settings.valSamples)).length = n - settings.valSamples := by
    rw [List.length_take, splits.length_eq, List.length_range, Nat.min_eq_left (Nat.sub_le n _)]
  obtain ⟨subsets, divided, trainInRowMajor, trainTgtRowMajor, valInRowMajor, valTgtRowMajor, pairs⟩ :=
    trainTestSplit_spec inputsRowMajor targetsRowMajor small fewer splits
  have evaluates : ∀ trainee, Ready n a c Good trainee → ∃ evaluated, evaluate settings subsets trainee = some evaluated ∧
      Agree n a c trainee evaluated ∧ evaluated.loss = trainee.loss :=
    fun _ ready => evaluate_total ready.stack fewer columns valInRowMajor valTgtRowMajor
  obtain ⟨result, schedule, trained, ran, length, follow, folded, _, agree, losses, ends⟩ :=
    epochs_train trainInRowMajor trainTgtRowMajor positive optimizes (Nat.sub_le n _) evaluates enough permuted 0
      (new_serves trainInRowMajor true firsts) rfl ready
  refine ⟨result, trained, schedule, ?_, length, ?_, folded, agree.optimizer.symm, agree.same, ?_, ?_⟩
  · simp [main, divided, ran]
  · intro batches member
    obtain ⟨shuffled, member', epoch⟩ := follow batches member
    have permuted' := permuted shuffled member'
    refine ⟨?_, epoch.small, ?_⟩
    · rw [epoch.length, permuted'.length_eq, List.length_range, order]
    · rw [epoch.rows, ← pairs]
      exact permuted'.map _
  · intro nonempty
    exact (losses (order ▸ List.length_pos_iff.mpr nonempty)).symm
  · intro fewer
    obtain ⟨below, i, length, evaluated⟩ := ends fewer
    exact ⟨below, i, length, Nat.zero_add i ▸ evaluated⟩

theorem main_trains {settings : Settings (AdamOptimizer α) α} {trainee : Trainee (AdamOptimizer α) α}
    (squareRoot : α → α) (adam : settings.optimizerStep = AdamOptimizer.step squareRoot)
    (stack : Stack n a c trainee.model) (fits : AllFit trainee.optimizer.states trainee.model)
    (positive : 0 < settings.batchSize) (columns : 0 < c) (fewer : settings.valSamples ≤ n) {split first : List Nat}
    (splits : split.Perm (List.range n)) (firsts : first.Perm (List.range (n - settings.valSamples)))
    {shuffles : List (List Nat)} (permuted : ∀ shuffled ∈ shuffles, shuffled.Perm (List.range (n - settings.valSamples)))
    {fuel : Nat} (enough : ceiling (n - settings.valSamples) settings.batchSize < fuel) :
    ∃ result trained schedule, main settings inputs targets fuel split first shuffles trainee = some result ∧
      Trains settings inputs targets (split.take (n - settings.valSamples)) shuffles.length trainee result trained schedule := by
  have optimizes : Optimizes settings n a c fun optimizer model => AllFit optimizer.states model := by
    constructor
    · intro optimizer model fits stack
      rw [adam]
      exact adam_total squareRoot optimizer stack fits
    · intro optimizer model model' fits same
      exact fits.same same
  exact program_trains inputsRowMajor targetsRowMajor positive columns fewer optimizes ⟨fits, stack⟩ splits firsts permuted
    enough

end Data

theorem main_trains_three :
    let zero : Tensor2D ℚ := { rows := 1, cols := 1, data := [0] }
    let inputs : Tensor2D ℚ := { rows := 3, cols := 1, data := [1, 2, 3] }
    let targets : Tensor2D ℚ := { rows := 3, cols := 1, data := [2, 4, 6] }
    let settings : Settings (AdamOptimizer ℚ) ℚ :=
      { coefficients := { leak := 0, logistic := id }
        optimizerStep := AdamOptimizer.step id
        batchSize := 2
        valSamples := 1
        totalEpochs := 2
        threshold := 1
        enough := 0 }
    let trainee : Trainee (AdamOptimizer ℚ) ℚ :=
      { optimizer := { learningRate := 1, beta1 := 0, beta2 := 0, epsilon := 1 }
        model := [.dense { weights := zero, bias := zero, inputCache := zero, dWeights := zero, dBias := zero }]
        loss := 0 }
    ∃ result trained schedule, main settings inputs targets 2 [2, 0, 1] [0, 1] [[1, 0], [0, 1]] trainee = some result ∧
      Trains settings inputs targets [2, 0] 2 trainee result trained schedule := by
  intro zero inputs targets settings trainee
  have single : ∀ x : ℚ, IsRowMajor 1 1 { rows := 1, cols := 1, data := [x] } := fun _ => ⟨rfl, rfl, rfl, rfl, by decide⟩
  have stack : Stack 3 1 1 trainee.model :=
    .cons ⟨single _, single _, single _, single _⟩ (by decide) (.nil 1)
  have inputsRowMajor : IsRowMajor 3 1 inputs := ⟨rfl, rfl, rfl, rfl, by decide⟩
  have targetsRowMajor : IsRowMajor 3 1 targets := ⟨rfl, rfl, rfl, rfl, by decide⟩
  have fits : AllFit trainee.optimizer.states trainee.model := ⟨nofun, trivial⟩
  exact main_trains inputsRowMajor targetsRowMajor id rfl stack fits (by decide) (by decide) (by decide) (by decide)
    (by decide) (by decide) (by decide)

/-! ## Gradient descent -/

section Descent

open TrivSqZeroExt DualNumber

theorem IsRowMajor.of_map {β γ : Type*} {f : β → γ} {tensor : Tensor2D β}
    (rowMajor : IsRowMajor a b (mapTensor f tensor)) : IsRowMajor a b tensor :=
  ⟨rowMajor.rows_eq, rowMajor.cols_eq, rowMajor.straight, (List.length_map f).symm.trans rowMajor.length_eq, rowMajor.fits⟩

theorem trainBatch_descends [IsStrictOrderedRing α] (learningRate : α)
    (descends : ∀ optimizer model, settings.optimizerStep optimizer model =
      (MachineLearning.step learningRate model).map fun model => (optimizer, model))
    (stack : Stack n a c trainee.model) (small : size ≤ n) (inputRowMajor : IsRowMajor size a taken.1)
    (targetRowMajor : IsRowMajor size c taken.2) (regular : Regular settings.coefficients trainee.model taken.1) :
    ∃ trained moved, trainBatch settings trainee taken = some trained ∧
      (Sequential.forward (duals settings.coefficients) (towardStack trainee.model trained.model)
        (unchanged taken.1)).map Prod.fst = some moved ∧
      MSELoss.forward moved (unchanged taken.2) =
        some (inl trained.loss + inr (-learningRate * (trained.model.map squares).sum)) ∧
      0 ≤ (trained.model.map squares).sum := by
  obtain ⟨pred, forwarded, computed, predRowMajor, _, _, backward⟩ :=
    stack_handles settings.coefficients small stack.zeroGrad inputRowMajor
  obtain ⟨lossGrad, derived, lossGradRowMajor, _⟩ := loss_backward predRowMajor targetRowMajor
  obtain ⟨dInput, after, backed, _, afterStack, _⟩ := backward lossGrad lossGradRowMajor
  have fit : FitStack n a c [(taken.1, lossGrad)] :=
    List.forall_mem_singleton.mpr ⟨size, small, inputRowMajor, lossGradRowMajor⟩
  obtain ⟨results, after', stepped, moveds, passed, ran, moving, outputs_eq, slopes⟩ :=
    step_moves learningRate stack fit (List.forall_mem_singleton.mpr regular)
  obtain ⟨rfl, rfl⟩ : [(pred, dInput)] = results ∧ after = after' := by
    simpa [passes, computed, backed] using passed
  obtain ⟨moved, forwarded', rfl⟩ : ∃ moved, (Sequential.forward (duals settings.coefficients)
      (towardStack trainee.model stepped) (unchanged taken.1)).map Prod.fst = some moved ∧ [moved] = moveds := by
    simpa [Option.bind_eq_some_iff] using moving
  obtain rfl : real moved = pred := List.singleton_inj.mp outputs_eq
  obtain ⟨loss, gradient, evaluated, derived', _, derivative⟩ := loss_differentiates predRowMajor.of_map targetRowMajor
  obtain rfl : gradient = lossGrad := Option.some.inj (derived'.symm.trans derived)
  have slope_eq : slope gradient moved = -learningRate * (stepped.map squares).sum := by
    rw [squares_step learningRate afterStack ran]
    simpa using slopes
  refine ⟨{ optimizer := trainee.optimizer, model := stepped, loss }, moved, ?_, forwarded', ?_, squares_sum_nonneg stepped⟩
  · simp [trainBatch, computed, evaluated, derived, backed, descends, ran]
  · rw [derivative, slope_eq]

theorem trainBatch_descends_dense :
    let zero : Tensor2D ℚ := { rows := 1, cols := 1, data := [0] }
    let settings : Settings Unit ℚ :=
      { coefficients := { leak := 0, logistic := id }
        optimizerStep := fun optimizer model => (MachineLearning.step 3 model).map fun model => (optimizer, model)
        batchSize := 2
        valSamples := 1
        totalEpochs := 2
        threshold := 1
        enough := 0 }
    let trainee : Trainee Unit ℚ :=
      { optimizer := ()
        model := [.dense { weights := zero, bias := zero, inputCache := zero, dWeights := zero, dBias := zero }]
        loss := 0 }
    let taken : Tensor2D ℚ × Tensor2D ℚ := ({ rows := 2, cols := 1, data := [1, 2] }, { rows := 2, cols := 1, data := [2, 4] })
    ∃ trained moved, trainBatch settings trainee taken = some trained ∧
      (Sequential.forward (duals settings.coefficients) (towardStack trainee.model trained.model)
        (unchanged taken.1)).map Prod.fst = some moved ∧
      MSELoss.forward moved (unchanged taken.2) = some (inl trained.loss + inr (-3 * (trained.model.map squares).sum)) ∧
      0 ≤ (trained.model.map squares).sum := by
  intro zero settings trainee taken
  have single : ∀ x : ℚ, IsRowMajor 1 1 { rows := 1, cols := 1, data := [x] } := fun _ => ⟨rfl, rfl, rfl, rfl, by decide⟩
  have stack : Stack 2 1 1 trainee.model :=
    .cons ⟨single _, single _, single _, single _⟩ (by decide) (.nil 1)
  have double : ∀ x y : ℚ, IsRowMajor 2 1 { rows := 2, cols := 1, data := [x, y] } :=
    fun _ _ => ⟨rfl, rfl, rfl, rfl, by decide⟩
  exact trainBatch_descends 3 (fun _ _ => rfl) stack le_rfl (double 1 2) (double 2 4) ⟨trivial, fun _ _ => trivial⟩

end Descent

end KnowledgeAcquisition.Proof.MachineLearning
