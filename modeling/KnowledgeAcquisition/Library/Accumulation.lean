import KnowledgeAcquisition.Library.Trace
import Mathlib.Algebra.BigOperators.Group.Finset.Piecewise
import Mathlib.Algebra.Group.Basic
import Mathlib.Data.List.GetD
import Mathlib.Tactic.Abel

/-!
# Threads that add to shared cells

Each thread has a list of additions to make. An addition is a step that reads the cell and a step that writes the sum,
and the steps of the threads interleave. Every order gives all the sums exactly if threads that share a cell
have nothing but zeros for it.
-/

namespace KnowledgeAcquisition.Library.Accumulation

variable {C α : Type*} [DecidableEq C]

/-- The additions that are left, and what has been read for the first one of them. -/
structure Thread (C α : Type*) where
  rest : List (C × α)
  loaded : Option α

structure State (C α : Type*) where
  cells : C → α
  threads : Nat → Thread C α

namespace State

def Finished (s : State C α) : Prop := ∀ t, (s.threads t).rest = []

def put (s : State C α) (cells : C → α) (t : Nat) (thread : Thread C α) : State C α :=
  { cells, threads := Function.update s.threads t thread }

variable {s : State C α} {cells cells' : C → α} {t t' : Nat} {thread thread' : Thread C α}

omit [DecidableEq C]

@[simp] theorem put_cells : (s.put cells t thread).cells = cells := rfl

@[simp] theorem put_self : (s.put cells t thread).threads t = thread := by
  simp only [put, Function.update_self]

theorem put_of_ne (other : t' ≠ t) : (s.put cells t thread).threads t' = s.threads t' := by
  simp only [put, Function.update_of_ne other]

@[simp] theorem put_put : (s.put cells t thread).put cells' t thread' = s.put cells' t thread' := by
  simp only [put, Function.update_idem]

theorem put_same (here : s.threads t = thread) : s.put s.cells t thread = s := by
  rw [put, ← here, Function.update_eq_self]

end State

def start (cells : C → α) (work : List (List (C × α))) : State C α :=
  { cells, threads := fun t => { rest := work.getD t [], loaded := none } }

section Step

variable [Add α]

def step (s : State C α) (t : Nat) : Option (State C α) :=
  match (s.threads t).rest, (s.threads t).loaded with
  | [], _ => none
  | (c, a) :: rest, none => some (s.put s.cells t ⟨(c, a) :: rest, some (s.cells c)⟩)
  | (c, a) :: rest, some old => some (s.put (Function.update s.cells c (old + a)) t ⟨rest, none⟩)

variable {s s' : State C α} {t : Nat} {c : C} {a old : α} {rest : List (C × α)}

theorem step_read (here : s.threads t = ⟨(c, a) :: rest, none⟩) :
    step s t = some (s.put s.cells t ⟨(c, a) :: rest, some (s.cells c)⟩) := by
  simp only [step, here]

theorem step_write (here : s.threads t = ⟨(c, a) :: rest, some old⟩) :
    step s t = some (s.put (Function.update s.cells c (old + a)) t ⟨rest, none⟩) := by
  simp only [step, here]

theorem step_cases (stepped : step s t = some s') : ∃ c a rest,
    (s.threads t = ⟨(c, a) :: rest, none⟩ ∧ s' = s.put s.cells t ⟨(c, a) :: rest, some (s.cells c)⟩) ∨
      ∃ old, s.threads t = ⟨(c, a) :: rest, some old⟩ ∧
        s' = s.put (Function.update s.cells c (old + a)) t ⟨rest, none⟩ := by
  cases here : s.threads t with
  | mk rest loaded =>
      cases rest with
      | nil =>
          simp only [step, here] at stepped
          cases stepped
      | cons first rest =>
          obtain ⟨c, a⟩ := first
          cases loaded with
          | none =>
              rw [step_read here] at stepped
              exact ⟨c, a, rest, Or.inl ⟨rfl, (Option.some.inj stepped).symm⟩⟩
          | some old =>
              rw [step_write here] at stepped
              exact ⟨c, a, rest, Or.inr ⟨old, rfl, (Option.some.inj stepped).symm⟩⟩

theorem step_rest {t' : Nat} {addition : C × α} (stepped : step s t = some s')
    (member : addition ∈ (s'.threads t').rest) : addition ∈ (s.threads t').rest := by
  obtain ⟨c, a, rest, ⟨here, rfl⟩ | ⟨old, here, rfl⟩⟩ := step_cases stepped
  · by_cases same : t' = t
    · rw [same, State.put_self] at member
      rwa [same, here]
    · rwa [State.put_of_ne same] at member
  · by_cases same : t' = t
    · rw [same, State.put_self] at member
      rw [same, here]
      exact List.mem_cons_of_mem _ member
    · rwa [State.put_of_ne same] at member

theorem step_elsewhere {t' : Nat} (stepped : step s t = some s') (other : t' ≠ t) : s'.threads t' = s.threads t' := by
  obtain ⟨c, a, rest, ⟨_, rfl⟩ | ⟨old, _, rfl⟩⟩ := step_cases stepped
  · exact State.put_of_ne other
  · exact State.put_of_ne other

theorem step_untouched (stepped : step s t = some s') (untouched : ∀ a, (c, a) ∉ (s.threads t).rest) :
    s'.cells c = s.cells c := by
  obtain ⟨c', a, rest, ⟨_, rfl⟩ | ⟨old, here, rfl⟩⟩ := step_cases stepped
  · rfl
  · apply Function.update_of_ne
    rintro rfl
    apply untouched a
    rw [here]
    exact List.mem_cons_self

theorem run_addition (here : s.threads t = ⟨(c, a) :: rest, none⟩) :
    Trace.run step s [t, t] = some (s.put (Function.update s.cells c (s.cells c + a)) t ⟨rest, none⟩) := by
  rw [Trace.run_cons, step_read here, Option.bind_some, Trace.run_cons, step_write State.put_self, State.put_put]
  rfl

theorem run_conflict {t' : Nat} {b : α} {rest' : List (C × α)} (different : t ≠ t')
    (here : s.threads t = ⟨(c, a) :: rest, none⟩) (there : s.threads t' = ⟨(c, b) :: rest', none⟩) :
    Trace.run step s [t', t, t, t'] = some
      ((s.put s.cells t ⟨rest, none⟩).put (Function.update s.cells c (s.cells c + b)) t' ⟨rest', none⟩) := by
  let stale : Thread C α := ⟨(c, b) :: rest', some (s.cells c)⟩
  have here' : (s.put s.cells t' stale).threads t = ⟨(c, a) :: rest, none⟩ := (State.put_of_ne different).trans here
  have there' : ((s.put s.cells t' stale).put (Function.update s.cells c (s.cells c + a)) t ⟨rest, none⟩).threads t' =
      stale := (State.put_of_ne different.symm).trans State.put_self
  have writes : Trace.run step
      ((s.put s.cells t' stale).put (Function.update s.cells c (s.cells c + a)) t ⟨rest, none⟩) [t'] = some
      ((s.put s.cells t ⟨rest, none⟩).put (Function.update s.cells c (s.cells c + b)) t' ⟨rest', none⟩) := by
    rw [Trace.run_cons, step_write there']
    simp only [State.put, Function.update_idem, Function.update_comm different]
    rfl
  rw [Trace.run_cons, step_read there, Option.bind_some, ← writes]
  exact (Trace.run_append _ [t, t] [t']).trans (congrArg (Option.bind · _) (run_addition here'))

end Step

variable [AddCommGroup α]

def owed (c : C) (additions : List (C × α)) : α :=
  (additions.map fun addition => if addition.1 = c then addition.2 else 0).sum

@[simp] theorem owed_nil (c : C) : owed c ([] : List (C × α)) = 0 := rfl

theorem owed_cons (c c' : C) (a : α) (additions : List (C × α)) :
    owed c ((c', a) :: additions) = (if c' = c then a else 0) + owed c additions := List.sum_cons

theorem owed_append (c : C) (additions later : List (C × α)) :
    owed c (additions ++ later) = owed c additions + owed c later := by
  rw [owed, List.map_append, List.sum_append, ← owed, ← owed]

theorem owed_eq_zero {c : C} {additions : List (C × α)} (zeros : ∀ a, (c, a) ∈ additions → a = 0) :
    owed c additions = 0 := by
  apply List.sum_eq_zero
  intro x member
  obtain ⟨⟨c', a⟩, found, rfl⟩ := List.mem_map.mp member
  by_cases here : c' = c
  · subst here
    rw [if_pos rfl, zeros a found]
  · exact if_neg here

theorem sum_owed (c : C) (work : List (List (C × α))) :
    ∑ t ∈ Finset.range work.length, owed c (work.getD t []) = owed c work.flatten := by
  induction work with
  | nil => rfl
  | cons first work ih =>
      rw [List.length_cons, Finset.sum_range_succ', List.flatten_cons, owed_append, add_comm, ← ih]
      rfl

/-- What a cell comes to if the first `n` threads add what they have left and nothing gets lost. -/
def promised (n : Nat) (s : State C α) (c : C) : α := s.cells c + ∑ t ∈ Finset.range n, owed c (s.threads t).rest

theorem promised_start (cells : C → α) (work : List (List (C × α))) (c : C) :
    promised work.length (start cells work) c = cells c + owed c work.flatten := by
  rw [promised, ← sum_owed]
  rfl

variable {s s' : State C α} {n t t' : Nat} {c : C} {a b : α} {made later : List (C × α)}

theorem promised_put (cells : C → α) (thread : Thread C α) (c : C) (inside : t < n) :
    promised n (s.put cells t thread) c =
      promised n s c + (cells c - s.cells c) + (owed c thread.rest - owed c (s.threads t).rest) := by
  have member := Finset.mem_range.mpr inside
  have others : ∑ x ∈ (Finset.range n).erase t, owed c ((s.put cells t thread).threads x).rest =
      ∑ x ∈ (Finset.range n).erase t, owed c (s.threads x).rest := by
    apply Finset.sum_congr rfl
    intro x other
    rw [State.put_of_ne (Finset.ne_of_mem_erase other)]
  rw [promised, promised, ← Finset.add_sum_erase _ _ member,
    ← Finset.add_sum_erase _ (fun t => owed c (s.threads t).rest) member, others, State.put_self, State.put_cells]
  abel

theorem run_alone (here : s.threads t = ⟨made ++ later, none⟩) :
    ∃ schedule, Trace.run step s schedule = some (s.put (fun c => s.cells c + owed c made) t ⟨later, none⟩) := by
  induction made generalizing s with
  | nil =>
      refine ⟨[], ?_⟩
      simp only [owed_nil, add_zero]
      exact congrArg some (State.put_same here).symm
  | cons first made ih =>
      obtain ⟨c, a⟩ := first
      have here : s.threads t = ⟨(c, a) :: (made ++ later), none⟩ := here
      obtain ⟨schedule, ran⟩ := ih (@State.put_self _ _ s (Function.update s.cells c (s.cells c + a)) t
        ⟨made ++ later, none⟩)
      refine ⟨[t, t] ++ schedule, ?_⟩
      rw [Trace.run_append, run_addition here, Option.bind_some, ran, State.put_put, State.put_cells]
      congr 2
      funext c'
      rw [owed_cons, ← add_assoc]
      by_cases same : c = c'
      · subst same
        rw [Function.update_self, if_pos rfl]
      · rw [Function.update_of_ne (Ne.symm same), if_neg same, add_zero]

theorem promised_alone (here : s.threads t = ⟨made ++ later, none⟩) (inside : t < n) (c : C) :
    promised n (s.put (fun c => s.cells c + owed c made) t ⟨later, none⟩) c = promised n s c := by
  rw [promised_put _ _ c inside, here, owed_append]
  abel

theorem run_finishes (n : Nat) (idle : ∀ t, n ≤ t → (s.threads t).rest = [])
    (ready : ∀ t, (s.threads t).loaded = none) :
    ∃ schedule s', Trace.run step s schedule = some s' ∧ s'.Finished ∧ ∀ c, s'.cells c = promised n s c := by
  induction n generalizing s with
  | zero =>
      refine ⟨[], s, rfl, fun t => idle t (Nat.zero_le t), ?_⟩
      intro c
      rw [promised, Finset.range_zero, Finset.sum_empty, add_zero]
  | succ n ih =>
      have here : s.threads n = ⟨(s.threads n).rest ++ [], none⟩ := by
        rw [List.append_nil, ← ready n]
      obtain ⟨alone, ran⟩ := run_alone here
      have idle' : ∀ t, n ≤ t → ((s.put (fun c => s.cells c + owed c (s.threads n).rest) n ⟨[], none⟩).threads t).rest =
          [] := by
        intro t beyond
        rcases Nat.eq_or_lt_of_le beyond with rfl | beyond
        · rw [State.put_self]
        · rw [State.put_of_ne (Nat.ne_of_gt beyond), idle t beyond]
      have ready' : ∀ t, ((s.put (fun c => s.cells c + owed c (s.threads n).rest) n ⟨[], none⟩).threads t).loaded =
          none := by
        intro t
        by_cases same : t = n
        · rw [same, State.put_self]
        · rw [State.put_of_ne same, ready t]
      obtain ⟨schedule, s', ran', finished, final⟩ := ih idle' ready'
      refine ⟨alone ++ schedule, s', ?_, finished, ?_⟩
      · rw [Trace.run_append, ran, Option.bind_some, ran']
      · intro c
        rw [final, ← promised_alone here (Nat.lt_succ_self n), promised, promised, Finset.sum_range_succ,
          State.put_self, owed_nil, add_zero]

/-! ## Lost updates -/

variable {cells : C → α} {work : List (List (C × α))}

theorem promised_conflict {rest rest' : List (C × α)} (different : t ≠ t') (here : s.threads t = ⟨(c, a) :: rest, none⟩)
    (there : s.threads t' = ⟨(c, b) :: rest', none⟩) (inside : t < n) (inside' : t' < n) :
    promised n ((s.put s.cells t ⟨rest, none⟩).put (Function.update s.cells c (s.cells c + b)) t' ⟨rest', none⟩) c =
      promised n s c - a := by
  rw [promised_put _ _ c inside', promised_put _ _ c inside, State.put_of_ne different.symm, here, there, owed_cons,
    owed_cons, State.put_cells, Function.update_self, if_pos rfl, if_pos rfl]
  abel

omit [DecidableEq C] [AddCommGroup α] in
theorem inside_of_ne_nil (nonempty : work.getD t [] ≠ []) : t < work.length := by
  by_contra beyond
  rw [List.getD_eq_default _ _ (Nat.le_of_not_lt beyond)] at nonempty
  exact nonempty rfl

theorem lost_update (different : t ≠ t') (mine : (c, a) ∈ work.getD t []) (yours : (c, b) ∈ work.getD t' []) :
    ∃ schedule s, Trace.run step (start cells work) schedule = some s ∧ s.Finished ∧
      s.cells c = cells c + owed c work.flatten - a := by
  have inside := inside_of_ne_nil (List.ne_nil_of_mem mine)
  have inside' := inside_of_ne_nil (List.ne_nil_of_mem yours)
  obtain ⟨made, rest, split⟩ := List.append_of_mem mine
  obtain ⟨made', rest', split'⟩ := List.append_of_mem yours
  -- Both threads get to their additions to the cell on their own.
  have here : (start cells work).threads t = ⟨made ++ (c, a) :: rest, none⟩ := congrArg (Thread.mk · none) split
  obtain ⟨schedule₁, ran₁⟩ := run_alone here
  have promised₁ := promised_alone here inside c
  set s₁ := (start cells work).put (fun c => (start cells work).cells c + owed c made) t ⟨(c, a) :: rest, none⟩
  have there : s₁.threads t' = ⟨made' ++ (c, b) :: rest', none⟩ :=
    (State.put_of_ne different.symm).trans (congrArg (Thread.mk · none) split')
  obtain ⟨schedule₂, ran₂⟩ := run_alone there
  have promised₂ := promised_alone there inside' c
  have here₂ : (s₁.put (fun c => s₁.cells c + owed c made') t' ⟨(c, b) :: rest', none⟩).threads t =
      ⟨(c, a) :: rest, none⟩ := (State.put_of_ne different).trans State.put_self
  set s₂ := s₁.put (fun c => s₁.cells c + owed c made') t' ⟨(c, b) :: rest', none⟩
  have there₂ : s₂.threads t' = ⟨(c, b) :: rest', none⟩ := State.put_self
  have ran₃ := run_conflict different here₂ there₂
  set s₃ := (s₂.put s₂.cells t ⟨rest, none⟩).put (Function.update s₂.cells c (s₂.cells c + b)) t' ⟨rest', none⟩
  have promised₃ : promised work.length s₃ c = promised work.length s₂ c - a :=
    promised_conflict different here₂ there₂ inside inside'
  -- All the others finish without losing anything.
  have quiet : ∀ τ, τ ≠ t → τ ≠ t' → s₃.threads τ = (start cells work).threads τ := by
    intro τ first second
    rw [State.put_of_ne second, State.put_of_ne first, State.put_of_ne second, State.put_of_ne first]
  have idle : ∀ τ, work.length ≤ τ → (s₃.threads τ).rest = [] := by
    intro τ beyond
    rw [quiet τ (by omega) (by omega)]
    exact List.getD_eq_default _ _ beyond
  have ready : ∀ τ, (s₃.threads τ).loaded = none := by
    intro τ
    by_cases second : τ = t'
    · rw [second, State.put_self]
    · by_cases first : τ = t
      · rw [State.put_of_ne second, first, State.put_self]
      · rw [quiet τ first second]
        rfl
  obtain ⟨schedule₄, s, ran₄, finished, final⟩ := run_finishes work.length idle ready
  refine ⟨schedule₁ ++ (schedule₂ ++ ([t', t, t, t'] ++ schedule₄)), s, ?_, finished, ?_⟩
  · rw [Trace.run_append, ran₁, Option.bind_some, Trace.run_append, ran₂, Option.bind_some, Trace.run_append, ran₃,
      Option.bind_some, ran₄]
  · rw [final, promised₃, promised₂, promised₁, promised_start]

def Fresh (c : C) (thread : Thread C α) (value : α) : Prop :=
  ∀ a rest old, thread = ⟨(c, a) :: rest, some old⟩ → old = value

omit [DecidableEq C] [AddCommGroup α] in
theorem fresh_none (c : C) (rest : List (C × α)) (value : α) : Fresh c ⟨rest, none⟩ value := by
  intro a rest' old same
  cases same

/-- Only the thread `t` adds to the cell, and it adds all of `total`. -/
structure AddedBy (t : Nat) (c : C) (total : α) (s : State C α) : Prop where
  others : ∀ t', t' ≠ t → ∀ a, (c, a) ∉ (s.threads t').rest
  total_eq : s.cells c + owed c (s.threads t).rest = total
  fresh : Fresh c (s.threads t) (s.cells c)

theorem AddedBy.step {total : α} (added : AddedBy t c total s) (stepped : step s t' = some s') :
    AddedBy t c total s' := by
  have others : ∀ τ, τ ≠ t → ∀ a, (c, a) ∉ (s'.threads τ).rest := fun τ other a member =>
    added.others τ other a (step_rest stepped member)
  by_cases same : t' = t
  · subst same
    obtain ⟨c', a, rest, ⟨here, rfl⟩ | ⟨old, here, rfl⟩⟩ := step_cases stepped
    · refine ⟨others, ?_, ?_⟩
      · rw [State.put_self, State.put_cells, ← added.total_eq, here]
      · rw [State.put_self, State.put_cells]
        intro a' rest' old read
        cases read
        rfl
    · refine ⟨others, ?_, ?_⟩
      · rw [State.put_self, State.put_cells, ← added.total_eq, here, owed_cons]
        by_cases it : c' = c
        · subst it
          rw [Function.update_self, if_pos rfl, added.fresh a rest old here, add_assoc]
        · rw [Function.update_of_ne (Ne.symm it), if_neg it, zero_add]
      · rw [State.put_self]
        exact fresh_none c rest _
  · have thread := step_elsewhere stepped (Ne.symm same)
    have cell := step_untouched stepped (added.others t' same)
    refine ⟨others, ?_, ?_⟩
    · rw [cell, thread, added.total_eq]
    · rw [cell, thread]
      exact added.fresh

theorem exact_of_alone (alone : ∀ t', t' ≠ t → ∀ a, (c, a) ∉ work.getD t' []) {schedule : List Nat}
    (ran : Trace.run step (start cells work) schedule = some s) (finished : s.Finished) :
    s.cells c = cells c + owed c (work.getD t []) := by
  have first : AddedBy t c (cells c + owed c (work.getD t [])) (start cells work) := ⟨alone, rfl, fresh_none c _ _⟩
  have last := Trace.run_keeps (fun _ _ _ added stepped => added.step stepped) first ran
  have total := last.total_eq
  rwa [finished t, owed_nil, add_zero] at total

structure Untouched (c : C) (value : α) (s : State C α) : Prop where
  zero : ∀ t a, (c, a) ∈ (s.threads t).rest → a = 0
  cell : s.cells c = value
  fresh : ∀ t, Fresh c (s.threads t) value

theorem Untouched.step {value : α} (untouched : Untouched c value s) (stepped : step s t = some s') :
    Untouched c value s' := by
  have zero : ∀ τ a, (c, a) ∈ (s'.threads τ).rest → a = 0 := fun τ a member =>
    untouched.zero τ a (step_rest stepped member)
  have elsewhere : ∀ τ, τ ≠ t → Fresh c (s'.threads τ) value := fun τ other =>
    (step_elsewhere stepped other).symm ▸ untouched.fresh τ
  obtain ⟨c', a, rest, ⟨here, rfl⟩ | ⟨old, here, rfl⟩⟩ := step_cases stepped
  · refine ⟨zero, untouched.cell, ?_⟩
    intro τ
    by_cases same : τ = t
    · rw [same, State.put_self]
      intro a' rest' old read
      cases read
      exact untouched.cell
    · exact elsewhere τ same
  · refine ⟨zero, ?_, ?_⟩
    · rw [State.put_cells]
      by_cases it : c' = c
      · subst it
        have nothing : a = 0 := by
          apply untouched.zero t a
          rw [here]
          exact List.mem_cons_self
        rw [Function.update_self, untouched.fresh t a rest old here, nothing, add_zero]
      · rw [Function.update_of_ne (Ne.symm it), untouched.cell]
    · intro τ
      by_cases same : τ = t
      · rw [same, State.put_self]
        exact fresh_none c rest _
      · exact elsewhere τ same

theorem exact_of_zero (zeros : ∀ t a, (c, a) ∈ work.getD t [] → a = 0) {schedule : List Nat}
    (ran : Trace.run step (start cells work) schedule = some s) : s.cells c = cells c := by
  have first : Untouched c (cells c) (start cells work) := ⟨zeros, rfl, fun t => fresh_none c _ _⟩
  exact (Trace.run_keeps (fun _ _ _ untouched stepped => untouched.step stepped) first ran).cell

theorem owed_flatten_of_alone (alone : ∀ t', t' ≠ t → ∀ a, (c, a) ∉ work.getD t' []) :
    owed c work.flatten = owed c (work.getD t []) := by
  have others : ∀ t' ∈ Finset.range work.length, t' ≠ t → owed c (work.getD t' []) = 0 := by
    intro t' _ other
    exact owed_eq_zero fun a member => absurd member (alone t' other a)
  have beyond : t ∉ Finset.range work.length → owed c (work.getD t []) = 0 := by
    intro outside
    rw [List.getD_eq_default _ _ (Nat.le_of_not_lt fun inside => outside (Finset.mem_range.mpr inside)), owed_nil]
  rw [← sum_owed, Finset.sum_eq_single t others beyond]

theorem exact_iff (cells : C → α) (work : List (List (C × α))) (c : C) :
    (∀ schedule s, Trace.run step (start cells work) schedule = some s → s.Finished →
        s.cells c = cells c + owed c work.flatten) ↔
      ∀ t t' a b, t ≠ t' → (c, a) ∈ work.getD t [] → (c, b) ∈ work.getD t' [] → a = 0 := by
  constructor
  · intro exact t t' a b different mine yours
    obtain ⟨schedule, s, ran, finished, final⟩ := @lost_update C α _ _ t t' c a b cells work different mine yours
    rw [exact schedule s ran finished] at final
    exact sub_eq_self.mp final.symm
  · intro separate schedule s ran finished
    by_cases shared : ∃ t t' a b, t ≠ t' ∧ (c, a) ∈ work.getD t [] ∧ (c, b) ∈ work.getD t' []
    · obtain ⟨t, t', a, b, different, mine, yours⟩ := shared
      have zeros : ∀ τ d, (c, d) ∈ work.getD τ [] → d = 0 := by
        intro τ d member
        by_cases same : τ = t
        · exact separate τ t' d b (same ▸ different) member yours
        · exact separate τ t d a same member mine
      have nothing : owed c work.flatten = 0 := by
        rw [← sum_owed]
        exact Finset.sum_eq_zero fun τ _ => owed_eq_zero (zeros τ)
      rw [exact_of_zero zeros ran, nothing, add_zero]
    · push Not at shared
      by_cases touched : ∃ t a, (c, a) ∈ work.getD t []
      · obtain ⟨t, a, mine⟩ := touched
        have alone : ∀ t', t' ≠ t → ∀ b, (c, b) ∉ work.getD t' [] := fun t' other b =>
          shared t t' a b other.symm mine
        rw [exact_of_alone alone ran finished, owed_flatten_of_alone alone]
      · push Not at touched
        rw [exact_of_alone (t := 0) (fun t' _ a => touched t' a) ran finished,
          owed_flatten_of_alone (t := 0) fun t' _ a => touched t' a]

end KnowledgeAcquisition.Library.Accumulation
