import KnowledgeAcquisition.Library.Trace
import Mathlib

/-!
# The descriptor registry

`StaticFileDescriptionRegistry` of `linux/common/ipc/sfd/sfd_static_registry.h`, called by one thread at a
time: an open-addressing table of reference counts with linear probing. A count is a `size_t`, which
wraps around.
-/

namespace KnowledgeAcquisition.Sfd
open Library

structure FileDescriptionRefCount where
  fd : Int := -1
  count : UInt64 := 0
  deriving DecidableEq, Repr

abbrev Registry (n : Nat) := Fin n → FileDescriptionRefCount

namespace Registry

variable {n : Nat} [NeZero n]

def new : Registry n := fun _ => {}

/-- `static_cast<size_t>(fd) % MaxSlots`, where a negative `int` is taken modulo `2 ^ 64`. -/
def getSlotIndex (n : Nat) (fd : Int) : Nat := (if fd < 0 then fd + 2 ^ 64 else fd).toNat % n

def slotAt (n : Nat) [NeZero n] (fd : Int) (i : Nat) : Fin n := Fin.ofNat n (getSlotIndex n fd + i)

def probe (n : Nat) [NeZero n] (fd : Int) : List (Fin n) := (List.range n).map (slotAt n fd)

/-- The slot whose mutex is returned; `none` is the fallback mutex. -/
def getMutex (registry : Registry n) (fd : Int) : Option (Fin n) :=
  (probe n fd).find? fun i => (registry i).fd = fd

def add (registry : Registry n) (i : Fin n) : Registry n :=
  Function.update registry i { registry i with count := (registry i).count + 1 }

def scan (registry : Registry n) (fd : Int) : List (Fin n) → Option (Fin n)
  | [] => none
  | i :: slots =>
      if (registry i).fd = fd then some i
      else if (registry i).fd = -1 then none
      else scan registry fd slots

def claim (registry : Registry n) (fd : Int) : List (Fin n) → Registry n
  | [] => registry
  | i :: slots =>
      if (registry i).fd = -1 then Function.update registry i { fd, count := 1 }
      else if (registry i).fd = fd then add registry i
      else claim registry fd slots

def retain (registry : Registry n) (fd : Int) : Registry n :=
  if fd < 0 then registry
  else match scan registry fd (probe n fd) with
    | some i => add registry i
    | none => claim registry fd (probe n fd)

def release (registry : Registry n) (fd : Int) : Registry n × Bool :=
  if fd < 0 then (registry, false)
  else match (probe n fd).find? fun i => (registry i).fd = fd with
    | none => (registry, false)
    | some i =>
        let slot := registry i
        if slot.count = 1 then (Function.update registry i { fd := -1, count := slot.count - 1 }, true)
        else (Function.update registry i { slot with count := slot.count - 1 }, false)

def getCount (registry : Registry n) (fd : Int) : UInt64 :=
  match (List.finRange n).find? fun i => (registry i).fd = fd with
  | none => 0
  | some i => (registry i).count

end Registry

/-- The registry and, as a record of the run, the retains that have not been released yet. -/
structure Usage (n : Nat) where
  registry : Registry n
  outstanding : List Int

namespace Usage

variable {n : Nat} [NeZero n]

def new : Usage n := { registry := Registry.new, outstanding := [] }

inductive Call where
  | retain (fd : Int)
  | release (fd : Int)
  deriving DecidableEq, Repr

/-- The calls a run may make: at most `n` descriptors are live at a time, and what is released has been
retained. -/
def step (usage : Usage n) : Call → Option (Usage n)
  | .retain fd =>
      let outstanding := if fd < 0 then usage.outstanding else fd :: usage.outstanding
      if outstanding.toFinset.card ≤ n then some { registry := usage.registry.retain fd, outstanding } else none
  | .release fd =>
      if fd ∈ usage.outstanding then
        some { registry := (usage.registry.release fd).1, outstanding := usage.outstanding.erase fd }
      else none

def run (usage : Usage n) (calls : List Call) : Option (Usage n) := Trace.run step usage calls

end Usage

end KnowledgeAcquisition.Sfd
