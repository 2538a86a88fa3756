import Mathlib.Data.Option.Basic

/-!
# Traces

Runs of a step function `σ → α → Option σ`, where `none` means that the step is not possible, and the
rules that lead from one step to a whole run. `Meets good` says that every step of a run is taken in
a state where `good` holds of it.
-/

namespace KnowledgeAcquisition.Library.Trace

variable {σ τ α : Type*} (step : σ → α → Option σ) (good : σ → α → Prop)

def run (s : σ) (actions : List α) : Option σ := actions.foldlM step s

def Meets : σ → List α → Prop
  | _, [] => True
  | s, a :: actions => good s a ∧ ∀ next ∈ step s a, Meets next actions

instance Meets.decide [∀ s a, Decidable (good s a)] : (s : σ) → (actions : List α) →
    Decidable (Meets step good s actions)
  | _, [] => inferInstanceAs (Decidable True)
  | s, a :: actions =>
      have : ∀ next, Decidable (Meets step good next actions) := fun next => Meets.decide next actions
      inferInstanceAs (Decidable (good s a ∧ ∀ next ∈ step s a, Meets step good next actions))

variable {step good}

theorem run_cons (s : σ) (a : α) (actions : List α) :
    run step s (a :: actions) = (step s a).bind fun next => run step next actions :=
  List.foldlM_cons

theorem run_append (s : σ) (actions later : List α) :
    run step s (actions ++ later) = (run step s actions).bind fun next => run step next later :=
  List.foldlM_append

theorem Meets.cons {s next : σ} {a : α} {actions : List α} (now : good s a) (first : step s a = some next)
    (later : Meets step good next actions) : Meets step good s (a :: actions) := by
  refine ⟨now, ?_⟩
  intro other taken
  rw [first] at taken
  obtain rfl := Option.some.inj taken
  exact later

/-- Simulation: a run whose steps are good returns, and stays related to the run of `reference`. -/
theorem run_simulates {R : σ → τ → Prop} {reference : τ → α → τ}
    (simulates : ∀ s t a, R s t → good s a → ∃ s', step s a = some s' ∧ R s' (reference t a))
    {s : σ} {t : τ} (start : R s t) {actions later : List α} (meets : Meets step good s (actions ++ later)) :
    ∃ s', run step s actions = some s' ∧ R s' (actions.foldl reference t) ∧ Meets step good s' later := by
  induction actions generalizing s t with
  | nil => exact ⟨s, rfl, start, meets⟩
  | cons a actions ih =>
      obtain ⟨next, first, related⟩ := simulates s t a start meets.1
      obtain ⟨s', rest, final⟩ := ih related (meets.2 next first)
      refine ⟨s', ?_, final⟩
      rw [run_cons, first]
      exact rest

theorem run_follows {R : σ → τ → Prop} {history : τ → α → τ}
    (keeps : ∀ s t a s', R s t → good s a → step s a = some s' → R s' (history t a))
    {s s' : σ} {t : τ} (start : R s t) {actions : List α} (meets : Meets step good s actions)
    (ran : run step s actions = some s') : R s' (actions.foldl history t) := by
  induction actions generalizing s t with
  | nil =>
      obtain rfl := Option.some.inj ran
      exact start
  | cons a actions ih =>
      rw [run_cons] at ran
      cases first : step s a with
      | none =>
          rw [first] at ran
          cases ran
      | some next =>
          rw [first] at ran
          exact ih (keeps s t a next start meets.1 first) (meets.2 next first) ran

theorem meets_of_forall (always : ∀ s a, good s a) (s : σ) (actions : List α) : Meets step good s actions := by
  induction actions generalizing s with
  | nil => trivial
  | cons a actions ih => exact ⟨always s a, fun next _ => ih next⟩

theorem Meets.imp {I : σ → Prop} {other : σ → α → Prop}
    (keeps : ∀ s a s', I s → good s a → step s a = some s' → I s')
    (implies : ∀ s a, I s → good s a → other s a) {s : σ} (start : I s) {actions : List α}
    (meets : Meets step good s actions) : Meets step other s actions := by
  induction actions generalizing s with
  | nil => trivial
  | cons a actions ih =>
      refine ⟨implies s a start meets.1, ?_⟩
      intro next first
      exact ih (keeps s a next start meets.1 first) (meets.2 next first)

theorem meets_congr {other : σ → α → Prop} (same : ∀ s a, good s a ↔ other s a) (s : σ) (actions : List α) :
    Meets step good s actions ↔ Meets step other s actions := by
  induction actions generalizing s with
  | nil => rfl
  | cons a actions ih =>
      simp only [Meets, same, ih]

theorem run_preserves {I : σ → Prop} (keeps : ∀ s a s', I s → good s a → step s a = some s' → I s') {s s' : σ}
    (start : I s) {actions : List α} (meets : Meets step good s actions) (ran : run step s actions = some s') :
    I s' := by
  have kept : ∀ s (_ : Unit) a s', I s → good s a → step s a = some s' → I s' := fun s _ => keeps s
  exact @run_follows _ _ _ step _ (fun s _ => I s) (fun _ _ => ()) kept s s' () start actions meets ran

theorem run_keeps {I : σ → Prop} (keeps : ∀ s a s', I s → step s a = some s' → I s') {s s' : σ} (start : I s)
    {actions : List α} (ran : run step s actions = some s') : I s' := by
  have meets : Meets step (fun _ _ => True) s actions := meets_of_forall (fun _ _ => trivial) s actions
  exact run_preserves (fun s a s' inv _ => keeps s a s' inv) start meets ran

/-- An invariant that exactly the good steps keep holds throughout exactly the runs whose steps are good. -/
theorem meets_iff_throughout {I : σ → Prop} (keeps : ∀ s a, I s → (good s a ↔ ∀ s' ∈ step s a, I s')) {s : σ}
    (start : I s) (actions : List α) : Meets step good s actions ↔
      ∀ made later, actions = made ++ later → ∀ s' ∈ run step s made, I s' := by
  constructor
  · intro meets made later split s' ran
    subst split
    induction made generalizing s with
    | nil =>
        obtain rfl := Option.some.inj ran
        exact start
    | cons a made ih =>
        rw [run_cons] at ran
        obtain ⟨next, first, ran⟩ := Option.bind_eq_some_iff.mp ran
        exact ih ((keeps s a start).mp meets.1 next first) ran (meets.2 next first)
  · intro throughout
    induction actions generalizing s with
    | nil => trivial
    | cons a actions ih =>
        have after : ∀ next ∈ step s a, I next := by
          intro next first
          apply throughout [a] actions rfl
          rw [run_cons, first]
          rfl
        refine ⟨(keeps s a start).mpr after, ?_⟩
        intro next first
        apply ih (after next first)
        intro made later split s' ran
        apply throughout (a :: made) later (split ▸ rfl)
        rw [run_cons, first]
        exact ran

theorem run_total {I : σ → Prop} (steps : ∀ s a, I s → ∃ s', step s a = some s' ∧ I s') {s : σ} (start : I s)
    (actions : List α) : ∃ s', run step s actions = some s' ∧ I s' := by
  induction actions generalizing s with
  | nil => exact ⟨s, rfl, start⟩
  | cons a actions ih =>
      obtain ⟨next, first, inv⟩ := steps s a start
      rw [run_cons, first]
      exact ih inv

end KnowledgeAcquisition.Library.Trace
