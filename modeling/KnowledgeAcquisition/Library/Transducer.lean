import Mathlib.Data.List.Basic

/-!
# Transducers

A machine that answers every input with one output. `feed` runs it over a list of inputs and
collects the answers; `feedAll` does so chunk by chunk.
-/

namespace KnowledgeAcquisition.Library.Transducer

variable {σ ι ο : Type*} (step : σ → ι → σ × ο)

def feed : σ → List ι → σ × List ο
  | s, [] => (s, [])
  | s, i :: is =>
      let (next, output) := step s i
      let (final, outputs) := feed next is
      (final, output :: outputs)

def feedAll : σ → List (List ι) → σ × List ο
  | s, [] => (s, [])
  | s, chunk :: chunks =>
      let (next, outputs) := feed step s chunk
      let (final, later) := feedAll next chunks
      (final, outputs ++ later)

variable {step}

theorem feed_nil (s : σ) : feed step s [] = (s, []) := rfl

theorem feed_cons (s : σ) (i : ι) (is : List ι) :
    feed step s (i :: is) = ((feed step (step s i).1 is).1, (step s i).2 :: (feed step (step s i).1 is).2) :=
  rfl

theorem feed_append (s : σ) (is js : List ι) :
    feed step s (is ++ js) = ((feed step (feed step s is).1 js).1,
      (feed step s is).2 ++ (feed step (feed step s is).1 js).2) := by
  induction is generalizing s with
  | nil => rfl
  | cons i is ih => rw [List.cons_append, feed_cons, ih, feed_cons, List.cons_append]

theorem feedAll_eq (s : σ) (chunks : List (List ι)) : feedAll step s chunks = feed step s chunks.flatten := by
  induction chunks generalizing s with
  | nil => rfl
  | cons chunk chunks ih => rw [List.flatten_cons, feed_append, ← ih]; rfl

theorem feed_step {s next final : σ} {i : ι} {output : ο} {is : List ι} {outputs : List ο}
    (first : step s i = (next, output)) (rest : feed step next is = (final, outputs)) :
    feed step s (i :: is) = (final, output :: outputs) := by
  rw [feed_cons, first]
  dsimp only
  rw [rest]

theorem feed_then {s middle final : σ} {is js : List ι} {outputs later : List ο}
    (first : feed step s is = (middle, outputs)) (rest : feed step middle js = (final, later)) :
    feed step s (is ++ js) = (final, outputs ++ later) := by
  rw [feed_append, first]
  dsimp only
  rw [rest]

theorem feed_invariant {I : σ → Prop} {P : ο → Prop} (keeps : ∀ s i, I s → I (step s i).1 ∧ P (step s i).2)
    {s : σ} (start : I s) (is : List ι) : I (feed step s is).1 ∧ ∀ output ∈ (feed step s is).2, P output := by
  induction is generalizing s with
  | nil => exact ⟨start, nofun⟩
  | cons i is ih =>
      obtain ⟨inv, here⟩ := keeps s i start
      obtain ⟨final, later⟩ := ih inv
      refine ⟨final, ?_⟩
      intro output member
      rw [feed_cons] at member
      rcases List.mem_cons.mp member with rfl | member
      · exact here
      · exact later output member

/-- Two machines on the same inputs, with a relation that their steps keep. -/
theorem feed_related {τ ω : Type*} {other : τ → ι → τ × ω} {R : σ → τ → Prop} {P : ο → ω → Prop}
    (keeps : ∀ s t i, R s t → R (step s i).1 (other t i).1 ∧ P (step s i).2 (other t i).2) {s : σ} {t : τ}
    (start : R s t) (is : List ι) :
    R (feed step s is).1 (feed other t is).1 ∧ List.Forall₂ P (feed step s is).2 (feed other t is).2 := by
  induction is generalizing s t with
  | nil => exact ⟨start, List.Forall₂.nil⟩
  | cons i is ih =>
      obtain ⟨related, here⟩ := keeps s t i start
      obtain ⟨final, later⟩ := ih related
      exact ⟨final, List.Forall₂.cons here later⟩

theorem feed_output {is : List ι} {k : Nat} {i : ι} (here : is[k]? = some i) (s : σ) :
    (feed step s is).2[k]? = some (step (feed step s (is.take k)).1 i).2 := by
  induction is generalizing s k with
  | nil => simp at here
  | cons first is ih =>
      cases k with
      | zero =>
          obtain rfl : first = i := by simpa using here
          rfl
      | succ k => exact ih here (step s first).1

theorem feed_take_succ {is : List ι} {k : Nat} {i : ι} (here : is[k]? = some i) (s : σ) :
    (feed step s (is.take (k + 1))).1 = (step (feed step s (is.take k)).1 i).1 := by
  rw [List.take_add_one, here, feed_append]
  rfl

def Avoids (step : σ → ι → σ × ο) (kind : σ → Prop) (s : σ) (is : List ι) : Prop :=
  ∀ k, 0 < k → k ≤ is.length → ¬kind (feed step s (is.take k)).1

theorem Avoids.nil {kind : σ → Prop} {s : σ} : Avoids step kind s [] := by
  intro k positive bound
  exact absurd positive (Nat.not_lt.mpr bound)

theorem Avoids.cons {kind : σ → Prop} {s : σ} {i : ι} {is : List ι} (here : ¬kind (step s i).1)
    (rest : Avoids step kind (step s i).1 is) : Avoids step kind s (i :: is) := by
  intro k positive bound
  cases k with
  | zero => exact absurd positive (Nat.lt_irrefl 0)
  | succ k =>
      cases k with
      | zero => exact here
      | succ k => exact rest (k + 1) (Nat.succ_pos k) (Nat.le_of_succ_le_succ bound)

theorem Avoids.append {kind : σ → Prop} {s : σ} {is js : List ι} (first : Avoids step kind s is)
    (rest : Avoids step kind (feed step s is).1 js) : Avoids step kind s (is ++ js) := by
  intro k positive bound
  by_cases within : k ≤ is.length
  · rw [List.take_append_of_le_length within]
    exact first k positive within
  · rw [List.take_append, List.take_of_length_le (by omega), feed_append]
    rw [List.length_append] at bound
    exact rest (k - is.length) (by omega) (by omega)

theorem feed_reaches {I : σ → Prop} (goal : σ → Prop) (measure : σ → Nat)
    (falls : ∀ s i, I s → I (step s i).1 ∧ (goal (step s i).1 ∨ measure (step s i).1 < measure s))
    {s : σ} (start : I s) {is : List ι} (enough : measure s < is.length) :
    ∃ k, 0 < k ∧ k ≤ is.length ∧ goal (feed step s (is.take k)).1 := by
  induction is generalizing s with
  | nil => exact absurd enough (Nat.not_lt_zero _)
  | cons i is ih =>
      obtain ⟨inv, met | less⟩ := falls s i start
      · exact ⟨1, Nat.one_pos, Nat.succ_le_succ (Nat.zero_le _), met⟩
      · obtain ⟨k, _, bound, met⟩ := ih inv (Nat.lt_of_lt_of_le less (Nat.le_of_lt_succ enough))
        exact ⟨k + 1, Nat.succ_pos k, Nat.succ_le_succ bound, met⟩

end KnowledgeAcquisition.Library.Transducer
