import KnowledgeAcquisition.Proof.Sfd.Registry
import KnowledgeAcquisition.Sfd.Shared

/-!
# Ownership of descriptors

The registry counts the handles that hold a descriptor, after every operation, and an operation closes a
descriptor exactly when it takes away the last of them.
-/

namespace KnowledgeAcquisition.Proof.Sfd
open KnowledgeAcquisition.Sfd Library Handles

variable {n : Nat} {α : Type} {state : Handles n α} {this other : α} {fd : Int}

theorem of_ite_some {β : Type} {condition : Prop} [Decidable condition] {value result : β}
    (returned : (if condition then some value else none) = some result) : condition ∧ value = result := by
  simpa using returned

@[simp] theorem holds_none (fd : Int) : holds fd none = 0 := by simp [holds]

@[simp] theorem holds_minus_one (fd : Int) : holds fd (some (-1)) = 0 := by
  rw [holds, if_neg]
  intro ⟨same, nonnegative⟩
  have := Option.some.inj same
  omega

theorem holds_self (nonnegative : 0 ≤ fd) : holds fd (some fd) = 1 := if_pos ⟨rfl, nonnegative⟩

theorem holds_other {g : Int} (differs : g ≠ fd) : holds g (some fd) = 0 := by
  rw [holds, if_neg]
  intro ⟨same, _⟩
  exact differs (Option.some.inj same).symm

theorem holds_negative (negative : ¬ 0 ≤ fd) (g : Int) : holds g (some fd) = 0 := by
  rw [holds, if_neg]
  intro ⟨same, nonnegative⟩
  rw [Option.some.inj same] at negative
  exact negative nonnegative

theorem holds_get (state : Handles n α) (this : α) (g : Int) :
    holds g (some (state.get this)) = holds g (state.shared this) := by
  cases found : state.shared this with
  | none => rw [Handles.get, found, Option.getD_none, holds_minus_one, holds_none]
  | some fd => rw [Handles.get, found, Option.getD_some]

theorem shared_of_get (nonnegative : 0 ≤ state.get this) : state.shared this = some (state.get this) := by
  cases found : state.shared this with
  | none =>
      rw [Handles.get, found, Option.getD_none] at nonnegative
      omega
  | some fd => rw [Handles.get, found, Option.getD_some]

section
variable [Fintype α]

theorem holders_pos (held : state.shared this = some fd) (nonnegative : 0 ≤ fd) : 0 < state.holders fd := by
  have bound := le_tally (holds fd) state.shared this
  rw [held, holds_self nonnegative] at bound
  exact bound

end

section
variable [Fintype α] [DecidableEq α]

theorem holders_update {state' : Handles n α} {handle : Option Int}
    (changed : state'.shared = Function.update state.shared this handle) (fd : Int) :
    state'.holders fd + holds fd (state.shared this) = state.holders fd + holds fd handle := by
  have change := tally_update (holds fd) state.shared this handle
  rw [← changed] at change
  exact change

theorem holders_bounded (few : Fintype.card α < 2 ^ 64) (spare : holds fd (state.shared this) = 0) :
    state.holders fd + 1 < 2 ^ 64 := by
  have one (address : α) : holds fd (state.shared address) ≤ 1 := by
    rw [holds]
    split <;> omega
  have bound := @tally_add_le _ _ _ _ (holds fd) (fun _ => 1) state.shared one this
  rw [tally_one, spare] at bound
  exact lt_of_le_of_lt bound few

end

/-! ## Operations -/

section
variable [DecidableEq α]

theorem below_update {shared : α → Option Int} (below : ∀ this fd, shared this = some fd → fd < n)
    {handle : Option Int} (bound : ∀ fd ∈ handle, fd < n) (this : α) :
    ∀ address fd, Function.update shared this handle address = some fd → fd < n := by
  intro address fd found
  by_cases same : address = this
  · rw [same, Function.update_self] at found
    exact bound fd found
  · rw [Function.update_of_ne same] at found
    exact below address fd found

variable [NeZero n]

theorem reset_shared_other {address : α} (differs : address ≠ this) :
    (state.reset this).shared address = state.shared address := by
  rw [Handles.reset]
  split
  · exact Function.update_of_ne differs _ _
  · rfl

theorem reset_spare (state : Handles n α) (this : α) (fd : Int) : holds fd ((state.reset this).shared this) = 0 := by
  rw [Handles.reset]
  split
  · simp only [Handles.set, Function.update_self]
    exact holds_minus_one fd
  · next negative =>
    rw [← holds_get]
    exact holds_negative negative fd

theorem construct_closed : (state.construct this fd).closed = state.closed := by
  rw [Handles.construct]
  split <;> rfl

theorem construct_unique : (state.construct this fd).unique = state.unique := by
  rw [Handles.construct]
  split <;> rfl

end

variable [Fintype α]

structure Counted (state : Handles n α) : Prop where
  exact : Exact state.registry state.holders
  home : AtHome state.registry
  below : ∀ this fd, state.shared this = some fd → fd < n

theorem Counted.start : Counted ({} : Handles n α) where
  exact := by
    have none : Handles.holders ({} : Handles n α) = fun _ => 0 := funext fun fd => tally_eq_zero fun _ => holds_none fd
    rw [none]
    exact .new
  home _ used := absurd rfl used
  below _ _ held := nomatch held

/-- `Policy::close` is called once for every descriptor whose last handle lets go of it, and for no other. -/
def ClosesLast (state state' : Handles n α) : Prop :=
  ∀ fd, state'.closed.count fd =
    state.closed.count fd + if state.holders fd ≠ 0 ∧ state'.holders fd = 0 then 1 else 0

theorem ClosesLast.of_more {state' : Handles n α} (closed : state'.closed = state.closed)
    (more : ∀ fd, state.holders fd ≤ state'.holders fd) : ClosesLast state state' := by
  intro fd
  have kept : ¬ (state.holders fd ≠ 0 ∧ state'.holders fd = 0) := by
    have := more fd
    omega
  rw [closed, if_neg kept, Nat.add_zero]

structure Lets (state state' : Handles n α) : Prop where
  counted : Counted state'
  fresh : ∀ fd, state.holders fd = 0 → state'.holders fd = 0
  closed : ClosesLast state state'
  unique : state'.unique = state.unique

theorem Lets.trans {state' state'' : Handles n α} (first : Lets state state') (second : Lets state' state'') :
    Lets state state'' where
  counted := second.counted
  fresh fd none := second.fresh fd (first.fresh fd none)
  closed fd := by
    have before := first.fresh fd
    have after := second.fresh fd
    rw [second.closed fd, first.closed fd]
    split <;> split <;> split <;> omega
  unique := second.unique.trans first.unique

theorem Lets.of_holders {state' : Handles n α} (counted : Counted state) (registry : state'.registry = state.registry)
    (holders : ∀ fd, state'.holders fd = state.holders fd)
    (below : ∀ this fd, state'.shared this = some fd → fd < n) (closed : state'.closed = state.closed)
    (unique : state'.unique = state.unique) : Lets state state' where
  counted := by
    have same : state'.holders = state.holders := funext holders
    refine ⟨?_, ?_, below⟩
    · rw [registry, same]
      exact counted.exact
    · rw [registry]
      exact counted.home
  fresh fd none := (holders fd).trans none
  closed := .of_more closed fun fd => Nat.le_of_eq (holders fd).symm
  unique := unique

theorem get_below (counted : Counted state) (this : α) : state.get this < n := by
  cases found : state.shared this with
  | none =>
      rw [Handles.get, found, Option.getD_none]
      omega
  | some fd =>
      rw [Handles.get, found, Option.getD_some]
      exact counted.below this fd found

theorem Lets.refl (counted : Counted state) : Lets state state :=
  .of_holders counted rfl (fun _ => rfl) counted.below rfl rfl

theorem Lets.withGuards {state' : Handles n α} (lets : Lets state state') (guards : List (SharedFdSwitchGuard α)) :
    Lets state { state' with guards } :=
  ⟨⟨lets.counted.exact, lets.counted.home, lets.counted.below⟩, lets.fresh, lets.closed, lets.unique⟩

/-- The numbers used are below `MaxSlots`, and a raw number is given to one owner only. -/
def OwnedOnce (state : Handles n α) : Operation α → Prop
  | .construct _ fd => fd < n ∧ (0 ≤ fd → ∀ source, state.unique source ≠ some fd)
  | .acquire _ fd => fd < n ∧ (0 ≤ fd → state.holders fd = 0 ∧ ∀ source, state.unique source ≠ some fd)
  | _ => True

structure Apart (state : Handles n α) : Prop where
  below : ∀ source fd, state.unique source = some fd → fd < n
  unheld : ∀ source fd, 0 ≤ fd → state.unique source = some fd → state.holders fd = 0
  single : ∀ source other fd, 0 ≤ fd → state.unique source = some fd → state.unique other = some fd → source = other

theorem Apart.start : Apart ({} : Handles n α) := ⟨nofun, nofun, nofun⟩

theorem Lets.apart {state' : Handles n α} (lets : Lets state state') (apart : Apart state) : Apart state' where
  below source fd owned := apart.below source fd (lets.unique ▸ owned)
  unheld source fd nonnegative owned := lets.fresh fd (apart.unheld source fd nonnegative (lets.unique ▸ owned))
  single source other fd nonnegative owned again :=
    apart.single source other fd nonnegative (lets.unique ▸ owned) (lets.unique ▸ again)

structure Keeps (state state' : Handles n α) (operation : Operation α) : Prop where
  counted : Counted state'
  apart : Apart state'
  closed : (∀ source, operation ≠ .discard source) → ClosesLast state state'

theorem Lets.keeps {state' : Handles n α} (lets : Lets state state') (apart : Apart state) (operation : Operation α) :
    Keeps state state' operation :=
  ⟨lets.counted, lets.apart apart, fun _ => lets.closed⟩

variable [DecidableEq α]

theorem default_lets (counted : Counted state) (vacant : state.shared this = none) : Lets state (state.set this (-1)) := by
  refine .of_holders counted rfl ?_ ?_ rfl rfl
  · intro g
    have change : (state.set this (-1)).holders g + holds g (state.shared this) =
        state.holders g + holds g (some (-1)) := holders_update rfl g
    rw [vacant, holds_none, holds_minus_one] at change
    omega
  · apply below_update counted.below
    intro fd member
    have := Option.some.inj member
    omega

theorem moveConstruct_lets (counted : Counted state) (differs : this ≠ other)
    (spare : ∀ g, holds g (state.shared this) = 0) : Lets state (state.moveConstruct this other) := by
  have below := get_below counted other
  refine Lets.of_holders counted rfl ?_ ?_ rfl rfl
  · intro g
    have first : (state.set this (state.get other)).holders g + holds g (state.shared this) =
        state.holders g + holds g (some (state.get other)) := holders_update rfl g
    have second : (state.moveConstruct this other).holders g +
        holds g ((state.set this (state.get other)).shared other) =
        (state.set this (state.get other)).holders g + holds g (some (-1)) := holders_update rfl g
    have source : (state.set this (state.get other)).shared other = state.shared other :=
      Function.update_of_ne (Ne.symm differs) _ _
    rw [spare g, holds_get] at first
    rw [source, holds_minus_one] at second
    omega
  · apply below_update
    · exact below_update counted.below (fun _ member => Option.some.inj member ▸ below) this
    · intro fd member
      have := Option.some.inj member
      omega

theorem acquire_keeps (counted : Counted state) (apart : Apart state) {source : α}
    (once : OwnedOnce state (.acquire source fd)) :
    Keeps state { state with unique := Function.update state.unique source (some fd) } (.acquire source fd) := by
  -- A descriptor of the others is not the new one.
  have owner (address : α) (g : Int) (nonnegative : 0 ≤ g)
      (owned : Function.update state.unique source (some fd) address = some g) :
      address = source ∧ g = fd ∨ g ≠ fd ∧ state.unique address = some g := by
    by_cases same : address = source
    · rw [same, Function.update_self] at owned
      exact .inl ⟨same, (Option.some.inj owned).symm⟩
    · rw [Function.update_of_ne same] at owned
      refine .inr ⟨?_, owned⟩
      intro equal
      subst equal
      exact (once.2 nonnegative).2 address owned
  refine ⟨⟨counted.exact, counted.home, counted.below⟩, ⟨?_, ?_, ?_⟩, fun _ => .of_more rfl fun _ => le_rfl⟩
  · exact below_update apart.below (fun _ member => Option.some.inj member ▸ once.1) source
  · intro address g nonnegative owned
    obtain ⟨-, rfl⟩ | ⟨-, before⟩ := owner address g nonnegative owned
    · exact (once.2 nonnegative).1
    · exact apart.unheld address g nonnegative before
  · intro address other g nonnegative owned again
    obtain ⟨first, same⟩ | ⟨differs, before⟩ := owner address g nonnegative owned
    · obtain ⟨second, -⟩ | ⟨differs, -⟩ := owner other g nonnegative again
      · rw [first, second]
      · exact absurd same differs
    · obtain ⟨-, same⟩ | ⟨-, also⟩ := owner other g nonnegative again
      · exact absurd same differs
      · exact apart.single address other g nonnegative before also

theorem discard_keeps (counted : Counted state) (apart : Apart state) {source : α} {closed : List Int} :
    Keeps state { state with unique := Function.update state.unique source none, closed } (.discard source) := by
  have owner (address : α) (g : Int) (owned : Function.update state.unique source none address = some g) :
      state.unique address = some g := by
    by_cases same : address = source
    · rw [same, Function.update_self] at owned
      cases owned
    · rw [Function.update_of_ne same] at owned
      exact owned
  refine ⟨⟨counted.exact, counted.home, counted.below⟩, ⟨?_, ?_, ?_⟩, fun shared => absurd rfl (shared source)⟩
  · exact fun address g owned => apart.below address g (owner address g owned)
  · exact fun address g nonnegative owned => apart.unheld address g nonnegative (owner address g owned)
  · exact fun address other g nonnegative owned again =>
      apart.single address other g nonnegative (owner address g owned) (owner other g again)

variable [NeZero n]

omit [Fintype α] in
theorem reset_eq (nonnegative : 0 ≤ state.get this) : state.reset this =
    { state with
      registry := (state.registry.release (state.get this)).1
      shared := Function.update state.shared this (some (-1))
      closed := if (state.registry.release (state.get this)).2 then state.get this :: state.closed else state.closed } := by
  simp only [Handles.reset, if_pos nonnegative, Handles.set]

theorem reset_holders (nonnegative : 0 ≤ state.get this) : (state.reset this).holders =
    Function.update state.holders (state.get this) (state.holders (state.get this) - 1) := by
  funext fd
  have handles : (state.reset this).shared = Function.update state.shared this (some (-1)) := by rw [reset_eq nonnegative]
  have change := holders_update handles fd
  rw [shared_of_get nonnegative, holds_minus_one] at change
  by_cases same : fd = state.get this
  · rw [same, holds_self nonnegative] at change
    rw [same, Function.update_self]
    omega
  · rw [holds_other same] at change
    rw [Function.update_of_ne same]
    omega

theorem Counted.reset (counted : Counted state) (nonnegative : 0 ≤ state.get this) : Counted (state.reset this) where
  exact := by
    have positive := holders_pos (shared_of_get nonnegative) nonnegative
    rw [reset_holders nonnegative, reset_eq nonnegative]
    exact (counted.exact.release positive).1
  home := by
    rw [reset_eq nonnegative]
    exact counted.home.release _
  below := by
    rw [reset_eq nonnegative]
    apply below_update counted.below
    intro fd member
    have := Option.some.inj member
    omega

theorem reset_closesLast (counted : Counted state) (nonnegative : 0 ≤ state.get this) :
    ClosesLast state (state.reset this) := by
  have positive := holders_pos (shared_of_get nonnegative) nonnegative
  obtain ⟨-, last, -⟩ := counted.exact.release positive
  intro fd
  rw [reset_holders nonnegative, reset_eq nonnegative]
  by_cases same : fd = state.get this
  · subst same
    rw [Function.update_self]
    by_cases one : state.holders (state.get this) = 1
    · rw [if_pos (last.mpr one), List.count_cons_self, if_pos (by omega)]
    · rw [if_neg (mt last.mp one), if_neg (by omega), Nat.add_zero]
  · have kept : ¬ (state.holders fd ≠ 0 ∧ state.holders fd = 0) := fun both => both.1 both.2
    rw [Function.update_of_ne same, if_neg kept, Nat.add_zero]
    split
    · exact List.count_cons_of_ne (Ne.symm same)
    · rfl

theorem reset_lets (counted : Counted state) (this : α) : Lets state (state.reset this) := by
  by_cases nonnegative : 0 ≤ state.get this
  · refine ⟨counted.reset nonnegative, ?_, reset_closesLast counted nonnegative, ?_⟩
    · intro fd none
      rw [reset_holders nonnegative]
      by_cases same : fd = state.get this
      · rw [same, Function.update_self, ← same, none]
      · rw [Function.update_of_ne same, none]
    · rw [reset_eq nonnegative]
  · have unchanged : state.reset this = state := by rw [Handles.reset, if_neg nonnegative]
    rw [unchanged]
    exact .refl counted

theorem construct_counted (few : Fintype.card α < 2 ^ 64) (counted : Counted state) (below : fd < n)
    (spare : ∀ g, holds g (state.shared this) = 0) :
    Counted (state.construct this fd) ∧
      ∀ g, (state.construct this fd).holders g = state.holders g + holds g (some fd) := by
  have shared : (state.construct this fd).shared = Function.update state.shared this (some fd) := by
    rw [Handles.construct]
    split <;> rfl
  have holders (g : Int) : (state.construct this fd).holders g = state.holders g + holds g (some fd) := by
    have change := holders_update shared g
    rw [spare g] at change
    exact change
  have bound : ∀ address fd', (state.construct this fd).shared address = some fd' → fd' < n := by
    rw [shared]
    exact below_update counted.below (fun _ member => Option.some.inj member ▸ below) this
  refine ⟨?_, holders⟩
  by_cases nonnegative : 0 ≤ fd
  · have registry : (state.construct this fd).registry = state.registry.retain fd := by
      rw [Handles.construct, if_pos nonnegative]
      rfl
    have after : (state.construct this fd).holders = Function.update state.holders fd (state.holders fd + 1) := by
      funext g
      by_cases same : g = fd
      · rw [same, Function.update_self, holders, holds_self nonnegative]
      · rw [Function.update_of_ne same, holders, holds_other same, Nat.add_zero]
    obtain ⟨exact, home⟩ :=
      counted.exact.retain_home counted.home nonnegative below (holders_bounded few (spare fd))
    refine ⟨?_, ?_, bound⟩
    · rw [registry, after]
      exact exact
    · rw [registry]
      exact home
  · have registry : (state.construct this fd).registry = state.registry := by
      rw [Handles.construct, if_neg nonnegative]
      rfl
    have after : (state.construct this fd).holders = state.holders := by
      funext g
      rw [holders, holds_negative nonnegative, Nat.add_zero]
    refine ⟨?_, ?_, bound⟩
    · rw [registry, after]
      exact counted.exact
    · rw [registry]
      exact counted.home

theorem construct_lets (few : Fintype.card α < 2 ^ 64) (counted : Counted state) (below : fd < n)
    (spare : ∀ g, holds g (state.shared this) = 0) (held : 0 ≤ fd → 0 < state.holders fd) :
    Lets state (state.construct this fd) := by
  obtain ⟨after, holders⟩ := construct_counted few counted below spare
  have fresh (g : Int) (none : state.holders g = 0) : (state.construct this fd).holders g = 0 := by
    rw [holders, none, Nat.zero_add]
    by_cases nonnegative : 0 ≤ fd
    · apply holds_other
      intro same
      subst same
      exact absurd none (Nat.ne_of_gt (held nonnegative))
    · exact holds_negative nonnegative g
  exact ⟨after, fresh, .of_more construct_closed fun g => by rw [holders]; exact Nat.le_add_right _ _, construct_unique⟩

theorem copyConstruct_lets (few : Fintype.card α < 2 ^ 64) (counted : Counted state)
    (spare : ∀ g, holds g (state.shared this) = 0) : Lets state (state.copyConstruct this other) :=
  construct_lets few counted (get_below counted other) spare fun nonnegative =>
    holders_pos (shared_of_get nonnegative) nonnegative

theorem copyAssign_lets (few : Fintype.card α < 2 ^ 64) (counted : Counted state) (this other : α) :
    Lets state (state.copyAssign this other) := by
  rw [Handles.copyAssign]
  split
  · exact .refl counted
  · have resets := reset_lets counted this
    exact resets.trans (copyConstruct_lets few resets.counted (reset_spare state this))

theorem moveAssign_lets (counted : Counted state) (this other : α) : Lets state (state.moveAssign this other) := by
  rw [Handles.moveAssign]
  split
  · exact .refl counted
  · next differs =>
    have resets := reset_lets counted this
    exact resets.trans (moveConstruct_lets resets.counted differs (reset_spare state this))

theorem destroy_lets (counted : Counted state) (this : α) : Lets state (state.destroy this) := by
  have resets := reset_lets counted this
  refine resets.trans (.of_holders resets.counted rfl ?_ ?_ rfl rfl)
  · intro g
    have change : (state.destroy this).holders g + holds g ((state.reset this).shared this) =
        (state.reset this).holders g + holds g none := holders_update rfl g
    rw [reset_spare, holds_none] at change
    omega
  · exact below_update resets.counted.below (by simp) this

theorem enter_lets (counted : Counted state) {guard : SharedFdSwitchGuard α}
    (vacant : state.shared guard.temporaryFd = none) : Lets state (state.enter guard) := by
  have created := default_lets counted vacant
  have saved := created.trans (moveAssign_lets created.counted guard.temporaryFd guard.currentFd)
  have switched := saved.trans (moveAssign_lets saved.counted guard.currentFd guard.newFd)
  exact switched.withGuards _

theorem leave_lets (counted : Counted state) (guard : SharedFdSwitchGuard α) : Lets state (state.leave guard) := by
  have given := moveAssign_lets counted guard.newFd guard.currentFd
  have restored := given.trans (moveAssign_lets given.counted guard.currentFd guard.temporaryFd)
  exact restored.trans (destroy_lets restored.counted guard.temporaryFd)

theorem construct_keeps (few : Fintype.card α < 2 ^ 64) (counted : Counted state) (apart : Apart state)
    (vacant : state.shared this = none) (once : OwnedOnce state (.construct this fd)) :
    Keeps state (state.construct this fd) (.construct this fd) := by
  have spare (g : Int) : holds g (state.shared this) = 0 := by rw [vacant, holds_none]
  obtain ⟨after, holders⟩ := construct_counted few counted once.1 spare
  refine ⟨after, ⟨?_, ?_, ?_⟩, ?_⟩
  · rw [construct_unique]
    exact apart.below
  · intro source g nonnegative owned
    rw [construct_unique] at owned
    have differs : g ≠ fd := fun same => once.2 (same ▸ nonnegative) source (same ▸ owned)
    rw [holders, apart.unheld source g nonnegative owned, holds_other differs]
  · rw [construct_unique]
    exact apart.single
  · intro _
    apply ClosesLast.of_more construct_closed
    intro g
    rw [holders]
    exact Nat.le_add_right _ _

theorem convert_keeps (few : Fintype.card α < 2 ^ 64) (counted : Counted state) (apart : Apart state)
    {source : α} (vacant : state.shared this = none) (owned : state.unique source = some fd) :
    Keeps state (state.convert this source) (.convert this source) := by
  let moved : Handles n α := { state with unique := Function.update state.unique source (some (-1)) }
  have unique : ∀ address g, 0 ≤ g → moved.unique address = some g → address ≠ source ∧ state.unique address = some g := by
    intro address g nonnegative holds
    by_cases same : address = source
    · rw [same] at holds
      simp only [moved, Function.update_self, Option.some.injEq] at holds
      omega
    · simp only [moved, Function.update_of_ne same] at holds
      exact ⟨same, holds⟩
  have apart' : Apart moved := by
    refine ⟨?_, ?_, ?_⟩
    · exact below_update apart.below (fun _ member => by have := Option.some.inj member; omega) source
    · intro address g nonnegative holds
      exact apart.unheld address g nonnegative (unique address g nonnegative holds).2
    · intro address other g nonnegative holds again
      exact apart.single address other g nonnegative (unique address g nonnegative holds).2
        (unique other g nonnegative again).2
  have once : OwnedOnce moved (.construct this fd) := by
    refine ⟨apart.below source fd owned, ?_⟩
    intro nonnegative address holds
    obtain ⟨differs, holds⟩ := unique address fd nonnegative holds
    exact differs (apart.single address source fd nonnegative holds owned)
  have counted' : Counted moved := ⟨counted.exact, counted.home, counted.below⟩
  have keeps := construct_keeps few counted' apart' vacant once
  have converted : state.convert this source = moved.construct this fd := by
    rw [Handles.convert, owned, Option.getD_some]
  rw [converted]
  exact ⟨keeps.counted, keeps.apart, fun _ => keeps.closed nofun⟩

theorem step_keeps (few : Fintype.card α < 2 ^ 64) (counted : Counted state) (apart : Apart state)
    {operation : Operation α} (once : OwnedOnce state operation) {state' : Handles n α}
    (stepped : state.step operation = some state') : Keeps state state' operation := by
  have spare {this : α} (vacant : state.shared this = none) (g : Int) : holds g (state.shared this) = 0 := by
    rw [vacant, holds_none]
  cases operation with
  | default this =>
      obtain ⟨vacant, rfl⟩ := of_ite_some stepped
      exact (default_lets counted vacant).keeps apart _
  | construct this fd =>
      obtain ⟨vacant, rfl⟩ := of_ite_some stepped
      exact construct_keeps few counted apart vacant once
  | convert this source =>
      obtain ⟨⟨vacant, owned⟩, rfl⟩ := of_ite_some stepped
      obtain ⟨fd, owned⟩ := Option.isSome_iff_exists.mp owned
      exact convert_keeps few counted apart vacant owned
  | copyConstruct this other =>
      obtain ⟨⟨vacant, -⟩, rfl⟩ := of_ite_some stepped
      exact (copyConstruct_lets few counted (spare vacant)).keeps apart _
  | moveConstruct this other =>
      obtain ⟨⟨vacant, usable⟩, rfl⟩ := of_ite_some stepped
      have differs : this ≠ other := by
        intro same
        rw [← same, Handles.Usable, vacant] at usable
        cases usable.1
      exact (moveConstruct_lets counted differs (spare vacant)).keeps apart _
  | copyAssign this other =>
      obtain ⟨-, rfl⟩ := of_ite_some stepped
      exact (copyAssign_lets few counted this other).keeps apart _
  | moveAssign this other =>
      obtain ⟨-, rfl⟩ := of_ite_some stepped
      exact (moveAssign_lets counted this other).keeps apart _
  | reset this =>
      obtain ⟨-, rfl⟩ := of_ite_some stepped
      exact (reset_lets counted this).keeps apart _
  | destroy this =>
      obtain ⟨-, rfl⟩ := of_ite_some stepped
      exact (destroy_lets counted this).keeps apart _
  | enter guard =>
      obtain ⟨⟨vacant, -⟩, rfl⟩ := of_ite_some stepped
      exact (enter_lets counted vacant).keeps apart _
  | leave =>
      rw [Handles.step] at stepped
      split at stepped
      · cases stepped
      · next guard guards _ =>
        obtain ⟨-, rfl⟩ := of_ite_some stepped
        exact ((leave_lets counted guard).withGuards guards).keeps apart _
  | acquire source fd =>
      obtain ⟨-, rfl⟩ := of_ite_some stepped
      exact acquire_keeps counted apart once
  | discard source =>
      obtain ⟨fd, -, rfl⟩ := Option.map_eq_some_iff.mp stepped
      exact discard_keeps counted apart

end KnowledgeAcquisition.Proof.Sfd
