import Mathlib.Logic.Relation
import Mathlib.Tactic.Common

/-!
# Loops with explicit fuel

`Loop.run body fuel s` iterates `body` from `s`. An iteration goes round again with `.inl`, leaves
the loop with `.inr`, and faults with `none`; running out of fuel is also `none`. The rule
`Loop.run_total` proves total correctness for every amount of fuel above the measure of the start
state. The invariant `I k s` carries the measure `k` itself, so that a measure may be taken of
something the state only represents.
-/

namespace KnowledgeAcquisition.Library.Loop

variable {σ β : Type*}

def run (body : σ → Option (σ ⊕ β)) : Nat → σ → Option β
  | 0, _ => none
  | fuel + 1, s =>
      match body s with
      | none => none
      | some (.inl next) => run body fuel next
      | some (.inr result) => some result

def Advances (body : σ → Option (σ ⊕ β)) (I : Nat → σ → Prop) (Q : β → Prop) (k : Nat) (s : σ) : Prop :=
  (∃ next k', body s = some (.inl next) ∧ I k' next ∧ k' < k) ∨
  (∃ result, body s = some (.inr result) ∧ Q result)

theorem run_total {body : σ → Option (σ ⊕ β)} {I : Nat → σ → Prop} {Q : β → Prop}
    (advances : ∀ k s, I k s → Advances body I Q k s) (fuel k : Nat) (s : σ) (inv : I k s)
    (enough : k < fuel) : ∃ result, run body fuel s = some result ∧ Q result := by
  induction fuel generalizing k s with
  | zero => exact absurd enough (Nat.not_lt_zero _)
  | succ fuel ih =>
      rcases advances k s inv with ⟨next, k', again, inv', less⟩ | ⟨result, leave, post⟩
      · obtain ⟨result, finished, post⟩ := ih k' next inv' (by omega)
        exact ⟨result, by simp [run, again, finished], post⟩
      · exact ⟨result, by simp [run, leave], post⟩

def Turns (body : σ → Option (σ ⊕ β)) : σ → σ → Prop :=
  Relation.ReflTransGen fun s next => body s = some (.inl next)

theorem Turns.one {body : σ → Option (σ ⊕ β)} {s next : σ} (again : body s = some (.inl next)) :
    Turns body s next :=
  Relation.ReflTransGen.single again

/-- A loop leaves with what its last iteration leaves with, given fuel for a measure that falls. -/
theorem run_of_turns {body : σ → Option (σ ⊕ β)} {I : σ → Prop} {measure : σ → Nat}
    (falls : ∀ s next, I s → body s = some (.inl next) → I next ∧ measure next < measure s) {s last : σ} {result : β}
    (start : I s) (turns : Turns body s last) (leaves : body last = some (.inr result)) {fuel : Nat}
    (enough : measure s < fuel) : run body fuel s = some result := by
  induction turns using Relation.ReflTransGen.head_induction_on generalizing fuel with
  | refl =>
      cases fuel with
      | zero => exact absurd enough (Nat.not_lt_zero _)
      | succ fuel => simp [run, leaves]
  | head again _ ih =>
      cases fuel with
      | zero => exact absurd enough (Nat.not_lt_zero _)
      | succ fuel =>
          obtain ⟨kept, less⟩ := falls _ _ start again
          simp only [run, again]
          exact ih kept (by omega)

theorem run_after_turns {body : σ → Option (σ ⊕ β)} {s last : σ} (turns : Turns body s last) {fuel : Nat}
    {result : β} (ran : run body fuel s = some result) : ∃ left, run body left last = some result := by
  induction turns using Relation.ReflTransGen.head_induction_on generalizing fuel with
  | refl => exact ⟨fuel, ran⟩
  | head again _ ih =>
      cases fuel with
      | zero => cases ran
      | succ fuel =>
          simp only [run, again] at ran
          exact ih ran

theorem run_keeps {body : σ → Option (σ ⊕ β)} {I : σ → Prop} {Q : β → Prop}
    (again : ∀ s next, I s → body s = some (.inl next) → I next)
    (leaves : ∀ s result, I s → body s = some (.inr result) → Q result) {fuel : Nat} {s : σ} {result : β}
    (start : I s) (ran : run body fuel s = some result) : Q result := by
  induction fuel generalizing s with
  | zero => cases ran
  | succ fuel ih =>
      cases taken : body s with
      | none => simp [run, taken] at ran
      | some outcome =>
          cases outcome with
          | inl next =>
              simp only [run, taken] at ran
              exact ih (again s next start taken) ran
          | inr left =>
              simp only [run, taken, Option.some.injEq] at ran
              exact ran ▸ leaves s left start taken

theorem run_more {body : σ → Option (σ ⊕ β)} {fuel more : Nat} {s : σ} {result : β}
    (ran : run body fuel s = some result) (enough : fuel ≤ more) : run body more s = some result := by
  induction fuel generalizing more s with
  | zero => cases ran
  | succ fuel ih =>
      obtain ⟨more, rfl⟩ := Nat.exists_eq_succ_of_ne_zero (Nat.ne_of_gt (Nat.lt_of_lt_of_le (Nat.succ_pos fuel) enough))
      cases taken : body s with
      | none => simp [run, taken] at ran
      | some outcome =>
          cases outcome with
          | inl next =>
              simp only [run, taken] at ran ⊢
              exact ih ran (Nat.le_of_succ_le_succ enough)
          | inr left =>
              simp only [run, taken] at ran ⊢
              exact ran

theorem run_map {τ : Type*} {body : σ → Option (σ ⊕ σ)} {seen : τ → Option (τ ⊕ τ)} (part : σ → τ)
    (follows : ∀ s, seen (part s) = (body s).map (Sum.map part part)) (fuel : Nat) (s : σ) :
    run seen fuel (part s) = (run body fuel s).map part := by
  induction fuel generalizing s with
  | zero => rfl
  | succ fuel ih =>
      simp only [run, follows]
      cases body s with
      | none => rfl
      | some outcome =>
          cases outcome with
          | inl next => exact ih next
          | inr left => rfl

/-! ## Loops over a list -/

variable {α : Type*} {visit : σ → α → Option σ}

theorem foldlM_total {I : List α → σ → Prop} {elements : List α}
    (step : ∀ past a rest s, elements = past ++ a :: rest → I past s →
      ∃ next, visit s a = some next ∧ I (past ++ [a]) next)
    {s : σ} (start : I [] s) : ∃ last, elements.foldlM visit s = some last ∧ I elements last := by
  have rest : ∀ rest past s, elements = past ++ rest → I past s →
      ∃ last, rest.foldlM visit s = some last ∧ I elements last := by
    intro rest
    induction rest with
    | nil =>
        intro past s split inv
        rw [List.append_nil] at split
        exact ⟨s, rfl, split ▸ inv⟩
    | cons a rest ih =>
        intro past s split inv
        obtain ⟨next, visited, inv⟩ := step past a rest s split inv
        obtain ⟨last, finished, inv⟩ := ih (past ++ [a]) next (by rw [split, List.append_cons]) inv
        refine ⟨last, ?_, inv⟩
        rw [List.foldlM_cons, visited]
        exact finished
  exact rest elements [] s rfl start

theorem foldlM_range_total {visit : σ → Nat → Option σ} {I : Nat → σ → Prop} {bound : Nat}
    (step : ∀ i s, i < bound → I i s → ∃ next, visit s i = some next ∧ I (i + 1) next) {s : σ} (start : I 0 s) :
    ∃ last, (List.range bound).foldlM visit s = some last ∧ I bound last := by
  have steps : ∀ past i rest s, List.range bound = past ++ i :: rest → I past.length s →
      ∃ next, visit s i = some next ∧ I (past ++ [i]).length next := by
    intro past i rest s split inv
    have length := congrArg List.length split
    have here := congrArg (fun list => list[past.length]?) split
    simp only [List.length_range, List.length_append, List.length_cons] at length
    simp only [List.getElem?_append_right (Nat.le_refl _), Nat.sub_self, List.getElem?_cons_zero] at here
    rw [List.getElem?_range (by omega)] at here
    obtain rfl := Option.some.inj here
    rw [List.length_append]
    exact step past.length s (by omega) inv
  obtain ⟨last, finished, inv⟩ := foldlM_total (I := fun past => I past.length) steps start
  exact ⟨last, finished, List.length_range (n := bound) ▸ inv⟩

end KnowledgeAcquisition.Library.Loop
