import KnowledgeAcquisition.Library.Tally
import KnowledgeAcquisition.Sfd.Registry

/-!
# Shared descriptors

`SharedFileDescriptor` and `SharedFdSwitchGuard` of `linux/common/ipc/sfd/smart_file_descriptor.h`, used by
one thread. A handle is an object at an address. The contexts that the policies attach to a descriptor are
left out.
-/

namespace KnowledgeAcquisition.Sfd
open Library

abbrev Address := Fin (2 ^ 64 - 1)

structure SharedFdSwitchGuard (α : Type) where
  currentFd : α
  newFd : α
  temporaryFd : α
  deriving DecidableEq, Repr

/-- The member `_fd` of every `SharedFileDescriptor` and every `UniqueFileDescriptor` that exists, the guards
whose scope is open, innermost first, and the calls of `Policy::close`, last one first. -/
structure Handles (n : Nat) (α : Type) where
  registry : Registry n := Registry.new
  shared : α → Option Int := fun _ => none
  unique : α → Option Int := fun _ => none
  guards : List (SharedFdSwitchGuard α) := []
  closed : List Int := []

namespace Handles

variable {n : Nat} [NeZero n] {α : Type} [DecidableEq α]

def get (state : Handles n α) (this : α) : Int := (state.shared this).getD (-1)

def set (state : Handles n α) (this : α) (fd : Int) : Handles n α :=
  { state with shared := Function.update state.shared this (some fd) }

def holds (fd : Int) (handle : Option Int) : Nat := if handle = some fd ∧ 0 ≤ fd then 1 else 0

def holders [Fintype α] (state : Handles n α) (fd : Int) : Nat := tally (holds fd) state.shared

def construct (state : Handles n α) (this : α) (fd : Int) : Handles n α :=
  let state := state.set this fd
  if 0 ≤ fd then { state with registry := state.registry.retain fd } else state

def convert (state : Handles n α) (this source : α) : Handles n α :=
  let fd := (state.unique source).getD (-1)
  construct { state with unique := Function.update state.unique source (some (-1)) } this fd

def reset (state : Handles n α) (this : α) : Handles n α :=
  let fd := state.get this
  if 0 ≤ fd then
    let (registry, last) := state.registry.release fd
    ({ state with registry, closed := if last then fd :: state.closed else state.closed } : Handles n α).set this (-1)
  else state

def destroy (state : Handles n α) (this : α) : Handles n α :=
  let state := state.reset this
  { state with shared := Function.update state.shared this none }

def copyConstruct (state : Handles n α) (this other : α) : Handles n α := state.construct this (state.get other)

def copyAssign (state : Handles n α) (this other : α) : Handles n α :=
  if this = other then state
  else
    let state := state.reset this
    state.construct this (state.get other)

def moveConstruct (state : Handles n α) (this other : α) : Handles n α :=
  (state.set this (state.get other)).set other (-1)

def moveAssign (state : Handles n α) (this other : α) : Handles n α :=
  if this = other then state else (state.reset this).moveConstruct this other

def enter (state : Handles n α) (guard : SharedFdSwitchGuard α) : Handles n α :=
  let state := state.set guard.temporaryFd (-1)
  let state := state.moveAssign guard.temporaryFd guard.currentFd
  let state := state.moveAssign guard.currentFd guard.newFd
  { state with guards := guard :: state.guards }

def leave (state : Handles n α) (guard : SharedFdSwitchGuard α) : Handles n α :=
  let state := state.moveAssign guard.newFd guard.currentFd
  let state := state.moveAssign guard.currentFd guard.temporaryFd
  state.destroy guard.temporaryFd

inductive Operation (α : Type) where
  | default (this : α)
  | construct (this : α) (fd : Int)
  | convert (this source : α)
  | copyConstruct (this other : α)
  | moveConstruct (this other : α)
  | copyAssign (this other : α)
  | moveAssign (this other : α)
  | reset (this : α)
  | destroy (this : α)
  | enter (guard : SharedFdSwitchGuard α)
  | leave
  | acquire (source : α) (fd : Int)
  | discard (source : α)
  deriving DecidableEq, Repr

def Usable (state : Handles n α) (this : α) : Prop :=
  (state.shared this).isSome ∧ ∀ guard ∈ state.guards, guard.temporaryFd ≠ this

instance (state : Handles n α) (this : α) : Decidable (state.Usable this) :=
  inferInstanceAs (Decidable (_ ∧ _))

/-- The operations on existing handles, and with `acquire` and `discard` the constructor and the destructor of a
`UniqueFileDescriptor`. A second guard on an active handle would wait for its own mutex. -/
def step (state : Handles n α) : Operation α → Option (Handles n α)
  | .default this => if state.shared this = none then some (state.set this (-1)) else none
  | .construct this fd => if state.shared this = none then some (state.construct this fd) else none
  | .convert this source =>
      if state.shared this = none ∧ (state.unique source).isSome then some (state.convert this source) else none
  | .copyConstruct this other =>
      if state.shared this = none ∧ state.Usable other then some (state.copyConstruct this other) else none
  | .moveConstruct this other =>
      if state.shared this = none ∧ state.Usable other then some (state.moveConstruct this other) else none
  | .copyAssign this other =>
      if state.Usable this ∧ state.Usable other then some (state.copyAssign this other) else none
  | .moveAssign this other =>
      if state.Usable this ∧ state.Usable other then some (state.moveAssign this other) else none
  | .reset this => if state.Usable this then some (state.reset this) else none
  | .destroy this => if state.Usable this then some (state.destroy this) else none
  | .enter guard =>
      if state.shared guard.temporaryFd = none ∧ state.Usable guard.currentFd ∧ state.Usable guard.newFd ∧
          ∀ other ∈ state.guards, other.currentFd ≠ guard.currentFd then some (state.enter guard)
      else none
  | .leave =>
      match state.guards with
      | [] => none
      | guard :: guards =>
          if (state.shared guard.currentFd).isSome ∧ (state.shared guard.newFd).isSome then
            some { state.leave guard with guards }
          else none
  | .acquire source fd =>
      if state.unique source = none then
        some { state with unique := Function.update state.unique source (some fd) }
      else none
  | .discard source =>
      (state.unique source).map fun fd =>
        { state with
          unique := Function.update state.unique source none
          closed := if 0 ≤ fd then fd :: state.closed else state.closed }

def run (state : Handles n α) (operations : List (Operation α)) : Option (Handles n α) := Trace.run step state operations

end Handles

end KnowledgeAcquisition.Sfd
