import KnowledgeAcquisition.Proof.MachineLearning.Backpropagation
import KnowledgeAcquisition.Proof.MachineLearning.ModelCheckpoint
import KnowledgeAcquisition.Proof.Util.JsonHelper

/-!
# Saved stacks

The names under which a stack registers its parameters are all different, so that a stack with the same shapes finds each
of them again.
-/

namespace KnowledgeAcquisition.Proof.MachineLearning
open KnowledgeAcquisition.MachineLearning Library Tensor2D ModelCheckpoint

variable {layers source target : Sequential UInt32} {layer : Layer UInt32} {name : Name} {memory i j : Nat}

theorem weights_ne_bias (p q : Name) : p ++ dotWeights ≠ q ++ dotBias := by
  intro same
  have reversed := congrArg List.reverse same
  simp [dotWeights, dotBias] at reversed

theorem layerPrefix_injective {ending : Name} (same : layerPrefix i ++ ending = layerPrefix j ++ ending) : i = j :=
  Util.toString_injective (List.append_cancel_left (List.append_cancel_right same))

inductive Registers (i : Nat) : Layer UInt32 → Name → Parameter → Prop where
  | weights (layer : DenseLayer UInt32) : Registers i (.dense layer) (layerPrefix i ++ dotWeights) layer.weights
  | bias (layer : DenseLayer UInt32) : Registers i (.dense layer) (layerPrefix i ++ dotBias) layer.bias

theorem Registers.unique {layer' : Layer UInt32} {tensor tensor' : Parameter} (first : Registers i layer name tensor)
    (second : Registers j layer' name tensor') : i = j := by
  generalize here : name = name' at second
  cases first with
  | weights =>
      cases second with
      | weights => exact layerPrefix_injective here
      | bias => exact absurd here (weights_ne_bias _ _)
  | bias =>
      cases second with
      | weights => exact absurd here.symm (weights_ne_bias _ _)
      | bias => exact layerPrefix_injective here

theorem find?_getParameters {tensor : Parameter} :
    (layer.getParameters (layerPrefix i)).find? name = some tensor ↔ Registers i layer name tensor := by
  cases layer with
  | dense layer =>
      simp only [Layer.getParameters, OrderedMap.find?_assign]
      constructor
      · intro found
        split at found
        · rename_i here
          obtain rfl := Option.some.inj found
          exact here ▸ .bias layer
        · split at found
          · rename_i here
            obtain rfl := Option.some.inj found
            exact here ▸ .weights layer
          · cases found
      · intro registers
        cases registers with
        | weights => rw [if_neg (weights_ne_bias _ _), if_pos rfl]
        | bias => rw [if_pos rfl]
  | _ =>
      constructor
      · intro found
        cases found
      · intro registers
        cases registers

theorem fold_register (parameters checkpoint : StateDict) : (parameters.entries.foldl (fun checkpoint (name, parameter) =>
      registerParameter checkpoint name parameter) checkpoint).find? name =
        (parameters.find? name).or (checkpoint.find? name) := by
  obtain ⟨entries, sorted⟩ := parameters
  induction entries generalizing checkpoint with
  | nil => rfl
  | cons entry entries ih =>
      have first : (registerParameter checkpoint entry.1 entry.2).find? name =
          if name = entry.1 then some entry.2 else checkpoint.find? name := OrderedMap.find?_assign ..
      have found : (⟨entry :: entries, sorted⟩ : StateDict).find? name =
          if name = entry.1 then some entry.2 else (⟨entries, sorted.of_cons⟩ : StateDict).find? name :=
        OrderedMap.lookup_cons_eq ..
      rw [List.foldl_cons, ih _ sorted.of_cons, first, found]
      by_cases here : name = entry.1
      · have absent : (⟨entries, sorted.of_cons⟩ : StateDict).find? name = none := by
          rw [Option.eq_none_iff_forall_ne_some]
          intro tensor later
          have member := (OrderedMap.find?_eq_some_iff _).mp later
          exact OrderedMap.key_ne_of_lt (List.rel_of_pairwise_cons sorted member) here.symm
        rw [if_pos here, if_pos here, absent, Option.none_or, Option.some_or]
      · rw [if_neg here, if_neg here]

def registered : Nat → Sequential UInt32 → Name → Option Parameter
  | _, [], _ => none
  | i, layer :: layers, name =>
      (registered (i + 1) layers name).or ((layer.getParameters (layerPrefix i)).find? name)

theorem find?_register (checkpoint : StateDict) :
    (Sequential.register i layers checkpoint).find? name = (registered i layers name).or (checkpoint.find? name) := by
  induction layers generalizing i checkpoint with
  | nil => rfl
  | cons layer layers ih =>
      rw [Sequential.register, ih, fold_register, registered, Option.or_assoc]

theorem registered_eq_some_iff {tensor : Parameter} : registered i layers name = some tensor ↔
    ∃ k layer, layers[k]? = some layer ∧ Registers (i + k) layer name tensor := by
  induction layers generalizing i tensor with
  | nil => simp [registered]
  | cons layer layers ih =>
      rw [registered, Option.or_eq_some_iff, ih, find?_getParameters]
      constructor
      · rintro (⟨k, layer', found, registers⟩ | ⟨_, registers⟩)
        · exact ⟨k + 1, layer', found, by rwa [Nat.add_right_comm, Nat.add_assoc] at registers⟩
        · exact ⟨0, layer, rfl, registers⟩
      · rintro ⟨k, layer', found, registers⟩
        cases k with
        | succ k => exact Or.inl ⟨k, layer', found, by rwa [Nat.add_right_comm, Nat.add_assoc]⟩
        | zero =>
            obtain rfl : layer = layer' := Option.some.inj found
            refine Or.inr ⟨?_, registers⟩
            rw [Option.eq_none_iff_forall_ne_some]
            intro tensor' later
            obtain ⟨k, _, _, registers'⟩ := ih.mp later
            have same := registers.unique registers'
            omega

theorem find?_registered {tensor : Parameter} :
    (Sequential.register 0 layers OrderedMap.empty).find? name = some tensor ↔
      ∃ k layer, layers[k]? = some layer ∧ Registers k layer name tensor := by
  have none : (OrderedMap.empty : StateDict).find? name = none := rfl
  rw [find?_register, none, Option.or_none, registered_eq_some_iff]
  simp only [Nat.zero_add]

theorem assignEntry_length (name : Name) (tensor : Parameter) (entries : List (Name × Parameter)) :
    (OrderedMap.assignEntry (· < ·) name tensor entries).length ≤ entries.length + 1 := by
  induction entries with
  | nil => exact le_rfl
  | cons entry entries ih =>
      unfold OrderedMap.assignEntry
      split
      · exact Nat.le_succ _
      · split
        · exact le_rfl
        · exact Nat.succ_le_succ ih

theorem fold_register_length (entries : List (Name × Parameter)) (checkpoint : StateDict) :
    (entries.foldl (fun checkpoint (name, parameter) => registerParameter checkpoint name parameter)
      checkpoint).entries.length ≤ checkpoint.entries.length + entries.length := by
  induction entries generalizing checkpoint with
  | nil => exact le_rfl
  | cons entry entries ih =>
      have first : (registerParameter checkpoint entry.1 entry.2).entries.length ≤ checkpoint.entries.length + 1 :=
        assignEntry_length ..
      have rest := ih (registerParameter checkpoint entry.1 entry.2)
      rw [List.foldl_cons, List.length_cons]
      exact Nat.le_trans rest (by omega)

theorem getParameters_length (layer : Layer UInt32) (p : Name) : (layer.getParameters p).entries.length ≤ 2 := by
  cases layer with
  | dense layer => exact assignEntry_length ..
  | _ => exact Nat.zero_le 2

theorem register_length (checkpoint : StateDict) :
    (Sequential.register i layers checkpoint).entries.length ≤ checkpoint.entries.length + 2 * layers.length := by
  induction layers generalizing i checkpoint with
  | nil => exact le_rfl
  | cons layer layers ih =>
      have few := getParameters_length layer (layerPrefix i)
      have first := fold_register_length (layer.getParameters (layerPrefix i)).entries checkpoint
      have rest := @ih (i + 1) ((layer.getParameters (layerPrefix i)).entries.foldl
        (fun checkpoint (name, parameter) => registerParameter checkpoint name parameter) checkpoint)
      rw [Sequential.register, List.length_cons]
      exact Nat.le_trans rest (by omega)

/-! ## Loading -/

def SameShape : Layer UInt32 → Layer UInt32 → Prop
  | .dense layer, .dense other => layer.weights.rows = other.weights.rows ∧ layer.weights.cols = other.weights.cols ∧
      layer.bias.rows = other.bias.rows ∧ layer.bias.cols = other.bias.cols
  | .relu _, .relu _ | .leakyReLU _, .leakyReLU _ | .sigmoid _, .sigmoid _ => True
  | _, _ => False

def RowMajorStack (layers : Sequential UInt32) : Prop :=
  ∀ layer, .dense layer ∈ layers → RowMajor layer.weights ∧ RowMajor layer.bias

structure Readable (memory : Nat) (layers : Sequential UInt32) : Prop where
  count : 2 * layers.length < 2 ^ 64
  names : ∀ i < layers.length, (layerPrefix i).length + 8 ≤ memory
  memory_lt : memory < 2 ^ 64

theorem RowMajorStack.rowMajor {tensor : Parameter} (rowMajor : RowMajorStack layers)
    (found : (Sequential.register 0 layers OrderedMap.empty).find? name = some tensor) : RowMajor tensor := by
  obtain ⟨k, layer, here, registers⟩ := find?_registered.mp found
  cases registers with
  | weights layer => exact (rowMajor layer (List.mem_of_getElem? here)).1
  | bias layer => exact (rowMajor layer (List.mem_of_getElem? here)).2

theorem same_layer (same : List.Forall₂ SameShape source target) {k : Nat} {layer layer' : Layer UInt32}
    (here : source[k]? = some layer) (here' : target[k]? = some layer') : SameShape layer layer' := by
  induction same generalizing k with
  | nil => cases here
  | cons first _ ih =>
      cases k with
      | zero =>
          obtain rfl := Option.some.inj here
          obtain rfl := Option.some.inj here'
          exact first
      | succ k => exact ih here here'

theorem Registers.other {layer' : Layer UInt32} {tensor : Parameter} (registers : Registers i layer name tensor)
    (shape : SameShape layer layer') : ∃ tensor', Registers i layer' name tensor' := by
  cases registers with
  | weights layer =>
      cases layer' with
      | dense layer' => exact ⟨_, .weights layer'⟩
      | _ => cases shape
  | bias layer =>
      cases layer' with
      | dense layer' => exact ⟨_, .bias layer'⟩
      | _ => cases shape

theorem stacks_compatible (rowMajor : RowMajorStack source) (rowMajor' : RowMajorStack target)
    (same : List.Forall₂ SameShape source target) (readable : Readable memory source) :
    Compatible memory (Sequential.register 0 source OrderedMap.empty)
      (Sequential.register 0 target OrderedMap.empty) := by
  constructor
  · exact fun name tensor found => rowMajor.rowMajor found
  · exact fun name tensor found => rowMajor'.rowMajor found
  · intro name tensor tensor' found found'
    obtain ⟨k, layer, here, registers⟩ := find?_registered.mp found
    obtain ⟨k', layer', here', registers'⟩ := find?_registered.mp found'
    obtain rfl := registers.unique registers'
    have shapes := same_layer same here here'
    generalize named : name = name' at registers'
    cases registers with
    | weights layer =>
        cases registers' with
        | weights layer' => exact ⟨shapes.1, shapes.2.1⟩
        | bias layer' => exact absurd named (weights_ne_bias _ _)
    | bias layer =>
        cases registers' with
        | weights layer' => exact absurd named.symm (weights_ne_bias _ _)
        | bias layer' => exact ⟨shapes.2.2.1, shapes.2.2.2⟩
  · have few := @register_length source 0 OrderedMap.empty
    have none : (OrderedMap.empty : StateDict).entries.length = 0 := rfl
    have count := readable.count
    omega
  · intro name member
    obtain ⟨tensor, found⟩ := OrderedMap.find?_isSome_iff _ |>.mpr member
    obtain ⟨k, layer, here, registers⟩ := find?_registered.mp found
    have inside : k < source.length := (List.getElem?_eq_some_iff.mp here).1
    have short := readable.names k inside
    cases registers with
    | weights layer =>
        rw [List.length_append]
        exact short
    | bias layer =>
        rw [List.length_append]
        exact Nat.le_trans (Nat.add_le_add_left (by decide) _) short
  · exact readable.memory_lt

theorem setParameters_same {layer' : Layer UInt32} {k : Nat} {stateDict : StateDict} (shape : SameShape layer layer')
    (found : ∀ name tensor, Registers k layer name tensor → stateDict.find? name = some tensor) :
    SameParameters layer (layer'.setParameters (layerPrefix k) stateDict) := by
  cases layer with
  | dense layer =>
      cases layer' with
      | dense layer' =>
          have weights := found _ _ (.weights layer)
          have bias := found _ _ (.bias layer)
          simp [SameParameters, Layer.setParameters, weights, bias]
      | _ => cases shape
  | _ =>
      cases layer' with
      | dense layer' => cases shape
      | _ => exact shape

theorem load_saved_stack (rowMajor : RowMajorStack source) (rowMajor' : RowMajorStack target)
    (same : List.Forall₂ SameShape source target) (readable : Readable memory source) :
    ∃ loaded, Sequential.load memory target (Sequential.save source) = some (.returned, loaded) ∧
      List.Forall₂ SameParameters source loaded ∧
      ∀ {α : Type} [CommRing α] [LinearOrder α] (float : UInt32 → α) (coefficients : Coefficients α) (input : Tensor2D α),
        (Sequential.forward coefficients (loaded.map (mapLayer float)) input).map Prod.fst =
          (Sequential.forward coefficients (source.map (mapLayer float)) input).map Prod.fst := by
  have compatible := stacks_compatible rowMajor rowMajor' same readable
  generalize saved : Sequential.register 0 source OrderedMap.empty = checkpoint at compatible
  generalize made : Sequential.register 0 target OrderedMap.empty = parameters at compatible
  have constructed : AllConstructed parameters := fun name tensor known =>
    (compatible.rowMajor name tensor known).constructed
  let restored := (savedEntries checkpoint).foldl (Entry.restore (save checkpoint)) parameters
  have loaded : load memory parameters (save checkpoint) =
      some (.returned, ⟨save checkpoint, some (save checkpoint).length⟩, restored) := by
    rw [load_eq, compatible.count_saved, Option.bind_some, ← savedEntries_length]
    exact loadEntries_of_walk constructed compatible.walk compatible.fits 0
  have parameters_same : List.Forall₂ SameParameters source
      (target.mapIdx fun k layer => layer.setParameters (layerPrefix k) restored) := by
    rw [List.forall₂_iff_get]
    refine ⟨by rw [List.length_mapIdx, same.length_eq], ?_⟩
    intro k inside inside'
    have inTarget : k < target.length := same.length_eq ▸ inside
    have here : source[k]? = some source[k] := List.getElem?_eq_getElem inside
    have shape := same_layer same here (List.getElem?_eq_getElem inTarget)
    simp only [List.get_eq_getElem, List.getElem_mapIdx]
    apply setParameters_same shape
    intro name tensor registers
    have found : checkpoint.find? name = some tensor := saved ▸ find?_registered.mpr ⟨k, _, here, registers⟩
    obtain ⟨tensor', registers'⟩ := registers.other shape
    have known : parameters.find? name = some tensor' :=
      made ▸ find?_registered.mpr ⟨k, _, List.getElem?_eq_getElem inTarget, registers'⟩
    rw [fold_find? fun entry member => (compatible.fits entry member).2, known, Option.map_some,
      compatible.restored_eq known, found, Option.getD_some]
  refine ⟨_, ?_, parameters_same, ?_⟩
  · rw [Sequential.load, Sequential.save, saved, made, loaded]
    rfl
  · intro α _ _ float coefficients input
    exact (forward_same (same_map float parameters_same) input).symm

theorem load_saved_stack_of_two :
    let dense (weight : UInt32) : DenseLayer UInt32 :=
      { weights := scalar weight, bias := scalar 0, inputCache := scalar 0, dWeights := scalar 0, dBias := scalar 0 }
    let source : Sequential UInt32 := [.dense (dense 1065353216), .relu (scalar 5)]
    let target : Sequential UInt32 := [.dense (dense 0), .relu (scalar 0)]
    ∃ loaded, Sequential.load 15 target (Sequential.save source) = some (.returned, loaded) ∧
      List.Forall₂ SameParameters source loaded ∧
      ∀ {α : Type} [CommRing α] [LinearOrder α] (float : UInt32 → α) (coefficients : Coefficients α) (input : Tensor2D α),
        (Sequential.forward coefficients (loaded.map (mapLayer float)) input).map Prod.fst =
          (Sequential.forward coefficients (source.map (mapLayer float)) input).map Prod.fst := by
  intro dense source target
  have rowMajor : ∀ weight cache, RowMajorStack [.dense (dense weight), .relu cache] := by
    intro weight cache layer member
    simp only [List.mem_cons, Layer.dense.injEq, reduceCtorEq, List.not_mem_nil, or_false] at member
    obtain rfl := member
    exact ⟨scalar_rowMajor weight, scalar_rowMajor 0⟩
  have readable : Readable 15 source := ⟨by decide, by decide, by decide⟩
  exact load_saved_stack (rowMajor _ _) (rowMajor _ _) (.cons ⟨rfl, rfl, rfl, rfl⟩ (.cons trivial .nil)) readable

end KnowledgeAcquisition.Proof.MachineLearning
