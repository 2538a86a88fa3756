import KnowledgeAcquisition.MachineLearning.AdamOptimizer
import KnowledgeAcquisition.Proof.MachineLearning.Backpropagation
import KnowledgeAcquisition.Proof.MachineLearning.DataLoader

/-!
# The shapes that Adam keeps

A step of Adam never faults on a stack whose moments have the shapes of the parameters, and leaves such a stack.
-/

namespace KnowledgeAcquisition.Proof.MachineLearning
open KnowledgeAcquisition.MachineLearning Tensor2D AdamOptimizer

universe u

variable {α : Type u} [Field α] {a b c n rows cols : Nat}

structure MomentsFit (rows cols : Nat) (moments : Moments α) : Prop where
  m : IsRowMajor rows cols moments.m
  v : IsRowMajor rows cols moments.v

structure StatesFit (layer : DenseLayer α) (states : AdamStates α) : Prop where
  w : MomentsFit layer.weights.rows layer.weights.cols states.w
  b : MomentsFit 1 layer.bias.cols states.b

theorem initMoments_spec (fits : rows * cols ≤ maxSize) :
    ∃ moments : Moments α, initMoments rows cols = some moments ∧ MomentsFit rows cols moments := by
  obtain ⟨blank, made, rowMajor⟩ := @new_isRowMajor α rows cols _ fits
  refine ⟨{ m := blank, v := blank }, ?_, rowMajor, rowMajor⟩
  rw [initMoments, made]
  rfl

variable (squareRoot : α → α) (optimizer : AdamOptimizer α)

theorem update_total {gradient parameter : Tensor2D α} {moments : Moments α} {i j : Nat} (row : i < rows) (col : j < cols)
    (gradientRowMajor : IsRowMajor rows cols gradient) (rowMajor : IsRowMajor rows cols parameter)
    (shape : MomentsFit rows cols moments) :
    ∃ next, update squareRoot optimizer gradient (parameter, moments) i j = some next ∧
      IsRowMajor rows cols next.1 ∧ MomentsFit rows cols next.2 := by
  obtain ⟨dw, readGradient⟩ := gradientRowMajor.atValue_some row col
  obtain ⟨mw, readM⟩ := shape.m.atValue_some row col
  obtain ⟨m, assignedM, mRowMajor, _⟩ :=
    shape.m.atAssign_spec row col (optimizer.beta1 * mw + (1 - optimizer.beta1) * dw)
  obtain ⟨vw, readV⟩ := shape.v.atValue_some row col
  obtain ⟨v, assignedV, vRowMajor, _⟩ :=
    shape.v.atAssign_spec row col (optimizer.beta2 * vw + (1 - optimizer.beta2) * dw * dw)
  obtain ⟨mw', readM'⟩ := mRowMajor.atValue_some row col
  obtain ⟨vw', readV'⟩ := vRowMajor.atValue_some row col
  obtain ⟨old, readOld⟩ := rowMajor.atValue_some row col
  obtain ⟨next, assigned, nextRowMajor, _⟩ := rowMajor.atAssign_spec row col
    (old - optimizer.learningRate / (squareRoot (vw' / (1 - optimizer.beta2 ^ optimizer.timeStep)) + optimizer.epsilon) *
      (mw' / (1 - optimizer.beta1 ^ optimizer.timeStep)))
  refine ⟨(next, { m, v }), ?_, nextRowMajor, mRowMajor, vRowMajor⟩
  simp [update, readGradient, readM, assignedM, readV, assignedV, readM', readV', readOld, assigned]

theorem updateEach_total {gradient parameter : Tensor2D α} {moments : Moments α}
    (gradientRowMajor : IsRowMajor rows cols gradient) (rowMajor : IsRowMajor rows cols parameter)
    (shape : MomentsFit rows cols moments) :
    ∃ last, updateEach squareRoot optimizer rows cols gradient (parameter, moments) = some last ∧
      IsRowMajor rows cols last.1 ∧ MomentsFit rows cols last.2 := by
  refine forEach_total (I := fun _ now => IsRowMajor rows cols now.1 ∧ MomentsFit rows cols now.2) ⟨rowMajor, shape⟩ ?_
    fun _ inv => inv
  intro i now row inv
  refine forEach_total (I := fun _ now => IsRowMajor rows cols now.1 ∧ MomentsFit rows cols now.2) inv ?_ fun _ inv => inv
  intro j now col inv
  exact update_total squareRoot optimizer row col gradientRowMajor inv.1 inv.2

theorem initAdamStates_spec {layer : DenseLayer α} (features : HasFeatures a b layer) {states : Option (AdamStates α)}
    (fits : ∀ present, states = some present → StatesFit layer present) :
    ∃ present, initAdamStates layer states = some present ∧ StatesFit layer present := by
  cases states with
  | some present => exact ⟨present, rfl, fits present rfl⟩
  | none =>
      obtain ⟨w, madeW, shapeW⟩ := @initMoments_spec α _ layer.weights.rows layer.weights.cols
        (by rw [features.weights.rows_eq, features.weights.cols_eq]; exact features.weights.fits)
      obtain ⟨b', madeB, shapeB⟩ := @initMoments_spec α _ 1 layer.bias.cols
        (by rw [features.bias.cols_eq]; exact features.bias.fits)
      refine ⟨{ w, b := b' }, ?_, shapeW, shapeB⟩
      rw [initAdamStates, madeW, madeB]
      rfl

def AllFit : List (Option (AdamStates α)) → Sequential α → Prop
  | _, [] => True
  | states, layer :: layers =>
      (∀ dense present, layer = .dense dense → states.head?.join = some present → StatesFit dense present) ∧
        AllFit states.tail layers

omit [Field α] in
theorem AllFit.same {states : List (Option (AdamStates α))} {layers others : Sequential α} (fits : AllFit states layers)
    (same : List.Forall₂ SameParameters layers others) : AllFit states others := by
  induction same generalizing states with
  | nil => trivial
  | @cons layer other layers others here _ ih =>
      refine ⟨?_, ih fits.2⟩
      rintro dense present rfl found
      cases layer with
      | dense layer =>
          have shapes := fits.1 layer present rfl found
          exact ⟨here.1 ▸ shapes.w, here.2 ▸ shapes.b⟩
      | _ => cases here

theorem stepLayer_total {layer : Layer α} (shape : FromTo a b layer) {states : Option (AdamStates α)}
    (fits : ∀ dense present, layer = .dense dense → states = some present → StatesFit dense present) :
    ∃ states' next, stepLayer squareRoot optimizer states layer = some (states', next) ∧ FromTo a b next ∧
      ∀ dense present, next = .dense dense → states' = some present → StatesFit dense present := by
  cases layer with
  | dense layer =>
      obtain ⟨present, initialised, shapes⟩ := initAdamStates_spec shape (fun present found => fits layer present rfl found)
      obtain ⟨fitsW, fitsB⟩ := shapes
      rw [shape.weights.rows_eq, shape.weights.cols_eq] at fitsW
      rw [shape.bias.cols_eq] at fitsB
      obtain ⟨⟨weights, w⟩, updatedW, weightsRowMajor, shapeW⟩ :=
        updateEach_total squareRoot optimizer shape.dWeights shape.weights fitsW
      obtain ⟨⟨bias, b'⟩, updatedB, biasRowMajor, shapeB⟩ :=
        updateEach_total squareRoot optimizer shape.dBias shape.bias fitsB
      refine ⟨some { w, b := b' }, .dense { layer with weights, bias }, ?_,
        ⟨weightsRowMajor, biasRowMajor, shape.dWeights, shape.dBias⟩, ?_⟩
      · simp [stepLayer, initialised, shape.weights.rows_eq, shape.weights.cols_eq, shape.bias.cols_eq, updatedW, updatedB]
      · intro dense present' same found
        cases same
        cases found
        refine ⟨?_, ?_⟩
        · rw [weightsRowMajor.rows_eq, weightsRowMajor.cols_eq]
          exact shapeW
        · rw [biasRowMajor.cols_eq]
          exact shapeB
  | _ => exact ⟨states, _, rfl, shape, fun _ _ other => nomatch other⟩

theorem stepLayers_total {model : Sequential α} (stack : Stack n a c model) {states : List (Option (AdamStates α))}
    (fits : AllFit states model) :
    ∃ states' next, stepLayers squareRoot optimizer states model = some (states', next) ∧ Stack n a c next ∧
      AllFit states' next := by
  induction stack generalizing states with
  | nil a => exact ⟨[], [], rfl, .nil a, trivial⟩
  | cons shape small _ ih =>
      obtain ⟨here, next, stepped, shape', fits'⟩ := stepLayer_total squareRoot optimizer shape fits.1
      obtain ⟨rest, others, ran, stack', fits''⟩ := ih fits.2
      refine ⟨here :: rest, next :: others, ?_, .cons shape' small stack', ?_, fits''⟩
      · simp [stepLayers, stepped, ran]
      · rintro dense present rfl found
        exact fits' dense present rfl found

theorem adam_total {model : Sequential α} (stack : Stack n a c model) (fits : AllFit optimizer.states model) :
    ∃ optimizer' model', AdamOptimizer.step squareRoot optimizer model = some (optimizer', model') ∧
      AllFit optimizer'.states model' ∧ Stack n a c model' := by
  rw [AdamOptimizer.step]
  dsimp only
  obtain ⟨states, next, ran, stack', fits'⟩ := stepLayers_total squareRoot
    { optimizer with timeStep := if optimizer.timeStep < 200 then optimizer.timeStep + 1 else optimizer.timeStep }
    stack fits
  rw [ran]
  exact ⟨_, next, rfl, fits', stack'⟩

end KnowledgeAcquisition.Proof.MachineLearning
