import KnowledgeAcquisition.Proof.Sfd.Shared

/-!
# Switch guards

A guard keeps the descriptor of its active handle in a member of its own, which no operation inside its scope
can reach, so that the end of the scope finds what the beginning has put there.
-/

namespace KnowledgeAcquisition.Proof.Sfd
open KnowledgeAcquisition.Sfd Library Handles

variable {n : Nat} {α : Type} {state state' : Handles n α} {this other address : α}

/-- The members of the open guards exist, and no guard inside refers to them. -/
structure Stacked (state : Handles n α) : Prop where
  alive : ∀ guard ∈ state.guards, (state.shared guard.temporaryFd).isSome
  nested : state.guards.Pairwise fun inner outer => outer.temporaryFd ≠ inner.currentFd ∧
    outer.temporaryFd ≠ inner.newFd ∧ outer.temporaryFd ≠ inner.temporaryFd

theorem Stacked.start : Stacked ({} : Handles n α) where
  alive _ opened := nomatch opened
  nested := .nil

theorem get_congr {finished : Handles n α} (kept : finished.shared address = state.shared address) :
    finished.get address = state.get address := by
  rw [Handles.get, kept, Handles.get]

theorem shared_of_isSome (alive : (state.shared this).isSome) : some (state.get this) = state.shared this := by
  obtain ⟨fd, held⟩ := Option.isSome_iff_exists.mp alive
  rw [Handles.get, held, Option.getD_some]

theorem ne_of_alive (vacant : state.shared address = none) (alive : (state.shared this).isSome) : address ≠ this := by
  intro same
  rw [← same, vacant] at alive
  cases alive

variable [NeZero n] [DecidableEq α]

theorem construct_shared_other {fd : Int} (differs : address ≠ this) :
    (state.construct this fd).shared address = state.shared address := by
  rw [Handles.construct]
  split <;> exact Function.update_of_ne differs _ _

theorem reset_get_other (differs : other ≠ this) : (state.reset this).get other = state.get other := by
  rw [Handles.get, reset_shared_other differs, Handles.get]

theorem moveAssign_self : state.moveAssign this this = state := if_pos rfl

theorem moveAssign_shared (differs : this ≠ other) : (state.moveAssign this other).shared =
    Function.update (Function.update state.shared this (some (state.get other))) other (some (-1)) := by
  have target : Function.update (state.reset this).shared this (some (state.get other)) =
      Function.update state.shared this (some (state.get other)) := by
    funext address
    by_cases same : address = this
    · rw [same, Function.update_self, Function.update_self]
    · rw [Function.update_of_ne same, Function.update_of_ne same, reset_shared_other same]
  simp only [Handles.moveAssign, if_neg differs, Handles.moveConstruct, Handles.set,
    reset_get_other (Ne.symm differs), target]

theorem moveAssign_shared_other (first : address ≠ this) (second : address ≠ other) :
    (state.moveAssign this other).shared address = state.shared address := by
  by_cases same : this = other
  · rw [same, moveAssign_self]
  · rw [moveAssign_shared same, Function.update_of_ne second, Function.update_of_ne first]

theorem copyAssign_shared_other (differs : address ≠ this) :
    (state.copyAssign this other).shared address = state.shared address := by
  rw [Handles.copyAssign]
  split
  · rfl
  · rw [construct_shared_other differs, reset_shared_other differs]

theorem destroy_shared_other (differs : address ≠ this) :
    (state.destroy this).shared address = state.shared address := by
  rw [Handles.destroy]
  exact (Function.update_of_ne differs _ _).trans (reset_shared_other differs)

theorem enter_shared_other {guard : SharedFdSwitchGuard α} (current : address ≠ guard.currentFd)
    (new : address ≠ guard.newFd) (temporary : address ≠ guard.temporaryFd) :
    (state.enter guard).shared address = state.shared address := by
  rw [Handles.enter]
  exact ((moveAssign_shared_other current new).trans (moveAssign_shared_other temporary current)).trans
    (Function.update_of_ne temporary _ _)

theorem leave_shared_other {guard : SharedFdSwitchGuard α} (current : address ≠ guard.currentFd)
    (new : address ≠ guard.newFd) (temporary : address ≠ guard.temporaryFd) :
    (state.leave guard).shared address = state.shared address := by
  rw [Handles.leave, destroy_shared_other temporary, moveAssign_shared_other current temporary,
    moveAssign_shared_other new current]

variable {guard : SharedFdSwitchGuard α}

theorem enter_temporary (current : guard.temporaryFd ≠ guard.currentFd) (new : guard.temporaryFd ≠ guard.newFd) :
    (state.enter guard).shared guard.temporaryFd = some (state.get guard.currentFd) := by
  have source : (state.set guard.temporaryFd (-1)).get guard.currentFd = state.get guard.currentFd :=
    get_congr (Function.update_of_ne (Ne.symm current) _ _)
  simp only [Handles.enter, moveAssign_shared_other current new, moveAssign_shared current,
    Function.update_of_ne current, Function.update_self, source]

theorem enter_current (new : guard.temporaryFd ≠ guard.newFd) (differs : guard.currentFd ≠ guard.newFd) :
    (state.enter guard).shared guard.currentFd = some (state.get guard.newFd) := by
  have source : ((state.set guard.temporaryFd (-1)).moveAssign guard.temporaryFd guard.currentFd).get guard.newFd =
      state.get guard.newFd :=
    get_congr ((moveAssign_shared_other (Ne.symm new) (Ne.symm differs)).trans
      (Function.update_of_ne (Ne.symm new) _ _))
  simp only [Handles.enter, moveAssign_shared differs, Function.update_of_ne differs, Function.update_self, source]

theorem leave_current (current : guard.temporaryFd ≠ guard.currentFd) (new : guard.temporaryFd ≠ guard.newFd) :
    (state.leave guard).shared guard.currentFd = some (state.get guard.temporaryFd) := by
  have source : (state.moveAssign guard.newFd guard.currentFd).get guard.temporaryFd = state.get guard.temporaryFd :=
    get_congr (moveAssign_shared_other new current)
  rw [Handles.leave, destroy_shared_other (Ne.symm current), moveAssign_shared (Ne.symm current),
    Function.update_of_ne (Ne.symm current), Function.update_self, source]

theorem leave_new (new : guard.temporaryFd ≠ guard.newFd) (differs : guard.currentFd ≠ guard.newFd) :
    (state.leave guard).shared guard.newFd = some (state.get guard.currentFd) := by
  rw [Handles.leave, destroy_shared_other (Ne.symm new),
    moveAssign_shared_other (Ne.symm differs) (Ne.symm new), moveAssign_shared (Ne.symm differs),
    Function.update_of_ne (Ne.symm differs), Function.update_self]

theorem leave_restores {finished : Handles n α} (vacant : state.shared guard.temporaryFd = none)
    (current : (state.shared guard.currentFd).isSome) (new : (state.shared guard.newFd).isSome)
    (temporaryKept : finished.shared guard.temporaryFd = (state.enter guard).shared guard.temporaryFd)
    (currentKept : finished.shared guard.currentFd = (state.enter guard).shared guard.currentFd) :
    (finished.leave guard).shared guard.currentFd = state.shared guard.currentFd ∧
      (finished.leave guard).shared guard.newFd = state.shared guard.newFd := by
  have apartCurrent := ne_of_alive vacant current
  have apartNew := ne_of_alive vacant new
  have restored : (finished.leave guard).shared guard.currentFd = state.shared guard.currentFd := by
    rw [leave_current apartCurrent apartNew, get_congr temporaryKept, ← shared_of_isSome current, Handles.get,
      enter_temporary apartCurrent apartNew, Option.getD_some]
  refine ⟨restored, ?_⟩
  by_cases same : guard.currentFd = guard.newFd
  · rw [← same]
    exact restored
  · rw [leave_new apartNew same, get_congr currentKept, ← shared_of_isSome new, Handles.get,
      enter_current apartNew same, Option.getD_some]

/-! ## Nested scopes -/

theorem reset_guards : (state.reset this).guards = state.guards := by
  rw [Handles.reset]
  split <;> rfl

theorem construct_guards {fd : Int} : (state.construct this fd).guards = state.guards := by
  rw [Handles.construct]
  split <;> rfl

theorem copyAssign_guards : (state.copyAssign this other).guards = state.guards := by
  rw [Handles.copyAssign]
  split
  · rfl
  · exact construct_guards.trans reset_guards

theorem moveAssign_guards : (state.moveAssign this other).guards = state.guards := by
  rw [Handles.moveAssign]
  split
  · rfl
  · exact reset_guards

theorem enter_guards : (state.enter guard).guards = guard :: state.guards := by
  simp only [Handles.enter, moveAssign_guards, Handles.set]

def nest (depth : Nat) : Operation α → Option Nat
  | .enter _ => some (depth + 1)
  | .leave => if depth = 0 then none else some (depth - 1)
  | _ => some depth

def Balanced (operations : List (Operation α)) : Prop := Trace.run nest 0 operations = some 0

theorem step_cases (stacked : Stacked state) {operation : Operation α}
    (stepped : state.step operation = some state') :
    ((∀ depth, nest depth operation = some depth) ∧ state'.guards = state.guards ∧
      ∀ guard ∈ state.guards, state'.shared guard.temporaryFd = state.shared guard.temporaryFd) ∨
    (∃ guard, operation = .enter guard ∧ state.shared guard.temporaryFd = none ∧ state.Usable guard.currentFd ∧
      state.Usable guard.newFd ∧ state' = state.enter guard) ∨
    ∃ guard guards, operation = .leave ∧ state.guards = guard :: guards ∧
      state' = { state.leave guard with guards } := by
  have fresh {this : α} (vacant : state.shared this = none) (guard : SharedFdSwitchGuard α)
      (opened : guard ∈ state.guards) : guard.temporaryFd ≠ this :=
    Ne.symm (ne_of_alive vacant (stacked.alive guard opened))
  cases operation with
  | default this =>
      obtain ⟨vacant, rfl⟩ := of_ite_some stepped
      exact .inl ⟨fun _ => rfl, rfl, fun guard opened => Function.update_of_ne (fresh vacant guard opened) _ _⟩
  | construct this fd =>
      obtain ⟨vacant, rfl⟩ := of_ite_some stepped
      exact .inl ⟨fun _ => rfl, construct_guards, fun guard opened =>
        construct_shared_other (fresh vacant guard opened)⟩
  | convert this source =>
      obtain ⟨⟨vacant, -⟩, rfl⟩ := of_ite_some stepped
      exact .inl ⟨fun _ => rfl, construct_guards, fun guard opened =>
        construct_shared_other (fresh vacant guard opened)⟩
  | copyConstruct this other =>
      obtain ⟨⟨vacant, -⟩, rfl⟩ := of_ite_some stepped
      exact .inl ⟨fun _ => rfl, construct_guards, fun guard opened =>
        construct_shared_other (fresh vacant guard opened)⟩
  | moveConstruct this other =>
      obtain ⟨⟨vacant, usable⟩, rfl⟩ := of_ite_some stepped
      refine .inl ⟨fun _ => rfl, rfl, fun guard opened => ?_⟩
      exact (Function.update_of_ne (usable.2 guard opened) _ _).trans
        (Function.update_of_ne (fresh vacant guard opened) _ _)
  | copyAssign this other =>
      obtain ⟨⟨usable, -⟩, rfl⟩ := of_ite_some stepped
      exact .inl ⟨fun _ => rfl, copyAssign_guards, fun guard opened =>
        copyAssign_shared_other (usable.2 guard opened)⟩
  | moveAssign this other =>
      obtain ⟨⟨usable, source⟩, rfl⟩ := of_ite_some stepped
      exact .inl ⟨fun _ => rfl, moveAssign_guards, fun guard opened =>
        moveAssign_shared_other (usable.2 guard opened) (source.2 guard opened)⟩
  | reset this =>
      obtain ⟨usable, rfl⟩ := of_ite_some stepped
      exact .inl ⟨fun _ => rfl, reset_guards, fun guard opened => reset_shared_other (usable.2 guard opened)⟩
  | destroy this =>
      obtain ⟨usable, rfl⟩ := of_ite_some stepped
      exact .inl ⟨fun _ => rfl, reset_guards, fun guard opened => destroy_shared_other (usable.2 guard opened)⟩
  | enter guard =>
      obtain ⟨⟨vacant, current, new, -⟩, rfl⟩ := of_ite_some stepped
      exact .inr (.inl ⟨guard, rfl, vacant, current, new, rfl⟩)
  | leave =>
      rw [Handles.step] at stepped
      split at stepped
      · cases stepped
      · next guard guards open_ =>
        obtain ⟨-, rfl⟩ := of_ite_some stepped
        exact .inr (.inr ⟨guard, guards, rfl, open_, rfl⟩)
  | acquire source fd =>
      obtain ⟨-, rfl⟩ := of_ite_some stepped
      exact .inl ⟨fun _ => rfl, rfl, fun _ _ => rfl⟩
  | discard source =>
      obtain ⟨fd, -, rfl⟩ := Option.map_eq_some_iff.mp stepped
      exact .inl ⟨fun _ => rfl, rfl, fun _ _ => rfl⟩

theorem step_private (stacked : Stacked state) {operation : Operation α}
    (stepped : state.step operation = some state') (opened : guard ∈ state.guards) (still : guard ∈ state'.guards) :
    state'.shared guard.temporaryFd = state.shared guard.temporaryFd := by
  obtain ⟨-, -, kept⟩ | ⟨inner, -, vacant, current, new, rfl⟩ | ⟨inner, guards, -, path, rfl⟩ :=
    step_cases stacked stepped
  · exact kept guard opened
  · have temporary := Ne.symm (ne_of_alive vacant (stacked.alive guard opened))
    exact enter_shared_other (current.2 guard opened) (new.2 guard opened) temporary
  · have nested := stacked.nested
    rw [path, List.pairwise_cons] at nested
    obtain ⟨current, new, temporary⟩ := nested.1 guard still
    exact leave_shared_other current new temporary

theorem step_stacked (stacked : Stacked state) {operation : Operation α}
    (stepped : state.step operation = some state') : Stacked state' := by
  have alive (guard : SharedFdSwitchGuard α) (opened : guard ∈ state.guards) (still : guard ∈ state'.guards) :
      (state'.shared guard.temporaryFd).isSome := by
    rw [step_private stacked stepped opened still]
    exact stacked.alive guard opened
  obtain ⟨-, same, -⟩ | ⟨inner, -, vacant, current, new, rfl⟩ | ⟨inner, guards, -, path, rfl⟩ :=
    step_cases stacked stepped
  · refine ⟨?_, ?_⟩
    · intro guard still
      exact alive guard (same ▸ still) still
    · rw [same]
      exact stacked.nested
  · have temporary : (state.enter inner).shared inner.temporaryFd = some (state.get inner.currentFd) :=
      enter_temporary (ne_of_alive vacant current.1) (ne_of_alive vacant new.1)
    refine ⟨?_, ?_⟩
    · intro guard still
      have member := still
      rw [enter_guards, List.mem_cons] at member
      obtain rfl | opened := member
      · rw [temporary]
        rfl
      · exact alive guard opened still
    · rw [enter_guards, List.pairwise_cons]
      refine ⟨?_, stacked.nested⟩
      intro outer opened
      exact ⟨current.2 outer opened, new.2 outer opened,
        Ne.symm (ne_of_alive vacant (stacked.alive outer opened))⟩
  · have nested := stacked.nested
    rw [path, List.pairwise_cons] at nested
    refine ⟨?_, nested.2⟩
    intro guard still
    have opened : guard ∈ state.guards := by
      rw [path]
      exact List.mem_cons_of_mem _ still
    exact alive guard opened still

theorem nest_step (stacked : Stacked state) {operation : Operation α} (stepped : state.step operation = some state')
    {depth depth' : Nat} (nests : nest depth operation = some depth') {inner outer : List (SharedFdSwitchGuard α)}
    (path : state.guards = inner ++ guard :: outer) (length : inner.length = depth) :
    ∃ inner', state'.guards = inner' ++ guard :: outer ∧ inner'.length = depth' := by
  obtain ⟨flat, same, -⟩ | ⟨other, rfl, -, -, -, rfl⟩ | ⟨other, guards, rfl, top, rfl⟩ :=
    step_cases stacked stepped
  · rw [flat] at nests
    exact ⟨inner, same.trans path, length.trans (Option.some.inj nests)⟩
  · refine ⟨other :: inner, ?_, ?_⟩
    · rw [enter_guards, path]
      rfl
    · rw [List.length_cons, length]
      exact Option.some.inj nests
  · simp only [nest, Option.ite_none_left_eq_some, Option.some.injEq] at nests
    cases inner with
    | nil =>
        rw [List.length_nil] at length
        exact absurd length.symm nests.1
    | cons first inner =>
        rw [path, List.cons_append, List.cons.injEq] at top
        refine ⟨inner, top.2.symm, ?_⟩
        rw [List.length_cons] at length
        omega

theorem nest_run {operations : List (Operation α)} (stacked : Stacked state)
    (ran : state.run operations = some state') {depth depth' : Nat} (nests : Trace.run nest depth operations = some depth')
    {inner outer : List (SharedFdSwitchGuard α)} (path : state.guards = inner ++ guard :: outer)
    (length : inner.length = depth) :
    (∃ inner', state'.guards = inner' ++ guard :: outer ∧ inner'.length = depth') ∧
      state'.shared guard.temporaryFd = state.shared guard.temporaryFd := by
  induction operations generalizing state depth inner with
  | nil =>
      obtain rfl := Option.some.inj ran
      obtain rfl := Option.some.inj nests
      exact ⟨⟨inner, path, length⟩, rfl⟩
  | cons operation operations ih =>
      rw [Handles.run, Trace.run_cons, Option.bind_eq_some_iff] at ran
      rw [Trace.run_cons, Option.bind_eq_some_iff] at nests
      obtain ⟨next, stepped, ran⟩ := ran
      obtain ⟨deeper, nested, nests⟩ := nests
      obtain ⟨inside, onward, long⟩ := nest_step stacked stepped nested path length
      have opened : guard ∈ state.guards := by simp [path]
      have still : guard ∈ next.guards := by simp [onward]
      obtain ⟨final, kept⟩ := ih (step_stacked stacked stepped) ran nests onward long
      exact ⟨final, kept.trans (step_private stacked stepped opened still)⟩

theorem moveAssign_alive (alive : (state.shared address).isSome) :
    ((state.moveAssign this other).shared address).isSome := by
  by_cases same : this = other
  · rw [same, moveAssign_self]
    exact alive
  · rw [moveAssign_shared same]
    by_cases source : address = other
    · rw [source, Function.update_self]
      rfl
    · rw [Function.update_of_ne source]
      by_cases target : address = this
      · rw [target, Function.update_self]
        rfl
      · rw [Function.update_of_ne target]
        exact alive

theorem enter_alive (differs : address ≠ guard.temporaryFd) (alive : (state.shared address).isSome) :
    ((state.enter guard).shared address).isSome := by
  have created : ((state.set guard.temporaryFd (-1)).shared address).isSome := by
    simp only [Handles.set, Function.update_of_ne differs]
    exact alive
  exact moveAssign_alive (moveAssign_alive created)

theorem scope_restores (stacked : Stacked state) {body : List (Operation α)} {opened finished : Handles n α}
    (enters : state.step (.enter guard) = some opened) (balanced : Balanced body)
    (ran : opened.run body = some finished)
    (currentKept : finished.shared guard.currentFd = opened.shared guard.currentFd)
    (newKept : finished.shared guard.newFd = opened.shared guard.newFd) :
    ∃ left, finished.step .leave = some left ∧ left.shared guard.currentFd = state.shared guard.currentFd ∧
      left.shared guard.newFd = state.shared guard.newFd := by
  have stackedInside := step_stacked stacked enters
  obtain ⟨⟨vacant, current, new, -⟩, rfl⟩ := of_ite_some enters
  have top : (state.enter guard).guards = [] ++ guard :: state.guards := enter_guards
  obtain ⟨⟨inner, path, none⟩, temporaryKept⟩ := nest_run stackedInside ran balanced top rfl
  rw [List.eq_nil_of_length_eq_zero none, List.nil_append] at path
  have alive : (finished.shared guard.currentFd).isSome ∧ (finished.shared guard.newFd).isSome := by
    rw [currentKept, newKept]
    exact ⟨enter_alive (Ne.symm (ne_of_alive vacant current.1)) current.1,
      enter_alive (Ne.symm (ne_of_alive vacant new.1)) new.1⟩
  refine ⟨{ finished.leave guard with guards := state.guards }, ?_, ?_⟩
  · simp only [Handles.step, path, if_pos alive]
  · exact leave_restores vacant current.1 new.1 temporaryKept currentKept

theorem discard_closes [Fintype α] (apart : Apart state) {source : α}
    (stepped : state.step (.discard source) = some state') {fd : Int}
    (closes : state'.closed.count fd ≠ state.closed.count fd) : state.holders fd = 0 := by
  obtain ⟨owned, found, rfl⟩ := Option.map_eq_some_iff.mp stepped
  by_cases nonnegative : 0 ≤ owned
  · simp only [if_pos nonnegative] at closes
    by_cases same : owned = fd
    · subst same
      exact apart.unheld source owned nonnegative found
    · exact absurd (List.count_cons_of_ne same) closes
  · simp only [if_neg nonnegative] at closes
    exact absurd rfl closes

/-- In every state of a run the registry counts the handles of each descriptor, the next operation closes a
descriptor exactly when it takes its last handle away, a `UniqueFileDescriptor` closes nothing that a handle
holds, and a guard restores its handles. -/
theorem run_ownership {operations : List (Operation Address)} {state : Handles n Address}
    (once : Trace.Meets Handles.step OwnedOnce ({} : Handles n Address) operations)
    (ran : Handles.run {} operations = some state) :
    (∀ fd, 0 ≤ fd → (state.registry.getCount fd).toNat = state.holders fd) ∧
    (∀ operation state', OwnedOnce state operation → state.step operation = some state' →
      (∀ source, operation ≠ .discard source) → ClosesLast state state') ∧
    (∀ source state', state.step (.discard source) = some state' → ∀ fd,
      state'.closed.count fd ≠ state.closed.count fd → state.holders fd = 0) ∧
    ∀ guard opened body finished, state.step (.enter guard) = some opened → Balanced body →
      opened.run body = some finished → finished.shared guard.currentFd = opened.shared guard.currentFd →
      finished.shared guard.newFd = opened.shared guard.newFd →
      ∃ left, finished.step .leave = some left ∧ left.shared guard.currentFd = state.shared guard.currentFd ∧
        left.shared guard.newFd = state.shared guard.newFd := by
  have few : Fintype.card Address < 2 ^ 64 := by
    rw [Fintype.card_fin]
    norm_num
  have keeps (state : Handles n Address) (operation : Operation Address) (state' : Handles n Address)
      (kept : Counted state ∧ Apart state ∧ Stacked state) (once : OwnedOnce state operation)
      (stepped : state.step operation = some state') : Counted state' ∧ Apart state' ∧ Stacked state' := by
    have next := step_keeps few kept.1 kept.2.1 once stepped
    exact ⟨next.counted, next.apart, step_stacked kept.2.2 stepped⟩
  obtain ⟨counted, apart, stacked⟩ := Trace.run_preserves keeps ⟨.start, .start, .start⟩ once ran
  refine ⟨?_, ?_, ?_, ?_⟩
  · intro fd nonnegative
    exact counted.exact.getCount_eq nonnegative
  · intro operation state' once stepped shared
    exact (step_keeps few counted apart once stepped).closed shared
  · intro source state' stepped fd closes
    exact discard_closes apart stepped closes
  · intro guard opened body finished enters balanced ran currentKept newKept
    exact scope_restores stacked enters balanced ran currentKept newKept

theorem run_ownership_two : ∃ state opened left : Handles 4 Address,
    Handles.run {} [.construct ⟨0, by decide⟩ 3, .copyConstruct ⟨1, by decide⟩ ⟨0, by decide⟩,
      .reset ⟨0, by decide⟩] = some state ∧ (state.registry.getCount 3).toNat = state.holders 3 ∧
    state.step (.enter ⟨⟨1, by decide⟩, ⟨0, by decide⟩, ⟨2, by decide⟩⟩) = some opened ∧
    opened.step .leave = some left ∧ left.shared ⟨1, by decide⟩ = state.shared ⟨1, by decide⟩ := by
  have once : Trace.Meets Handles.step OwnedOnce ({} : Handles 4 Address) [.construct ⟨0, by decide⟩ 3,
      .copyConstruct ⟨1, by decide⟩ ⟨0, by decide⟩, .reset ⟨0, by decide⟩] :=
    ⟨⟨by decide, fun _ _ => nofun⟩, fun _ _ => ⟨trivial, fun _ _ => ⟨trivial, fun _ _ => trivial⟩⟩⟩
  obtain ⟨counts, -, -, restores⟩ := run_ownership once rfl
  obtain ⟨left, leaves, current, -⟩ :=
    restores ⟨⟨1, by decide⟩, ⟨0, by decide⟩, ⟨2, by decide⟩⟩ _ [] _ rfl rfl rfl rfl rfl
  exact ⟨_, _, left, rfl, counts 3 (by decide), rfl, leaves, current⟩

end KnowledgeAcquisition.Proof.Sfd
