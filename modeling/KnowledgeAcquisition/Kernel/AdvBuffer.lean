import KnowledgeAcquisition.Library.Bytes
import KnowledgeAcquisition.Library.Ring

/-!
# The ring buffer device

`adv_chardev.c` of `laboratory/kernel/x86_64/0_charactor_device`: the operations on an open `adv_buffer` device, each
of which holds the mutex of the device for as long as it touches it. `head`, `tail` and `size` stay far below
`2 ^ 64`, so that of the computations with `size_t` only one needs its modulus. A result `none` is an access outside
of the buffer.
-/

namespace KnowledgeAcquisition.Kernel
open Library

inductive Errno where
  | efault
  | enotty
  | erestartsys
  | espipe
  deriving DecidableEq

/-- The memory of a process from the address on that it passed to a call. A copy returns how many of its bytes could not
be copied; one of more than `INT_MAX` bytes is refused. -/
structure UserMemory where
  byte : Nat → UInt8
  uncopied : (offset n : Nat) → Nat
  uncopied_le : ∀ offset n, uncopied offset n ≤ n
  refused : ∀ offset n, 2147483647 < n → uncopied offset n = n

def copyToUser (user : UserMemory) (offset : Nat) (source : Nat → UInt8) (n : Nat) : Nat × UserMemory :=
  let copied := n - user.uncopied offset n
  (user.uncopied offset n,
    { user with byte := fun i => if offset ≤ i ∧ i < offset + copied then source (i - offset) else user.byte i })

/-- What `copy_from_user` leaves in the place of `n` bytes: zeros where it could not copy. -/
def copyFromUser (user : UserMemory) (offset n i : Nat) : UInt8 :=
  if i < n - user.uncopied offset n then user.byte (offset + i) else 0

structure AdvancedDev where
  buffer : Fin 256 → UInt8 := fun _ => 0
  head : Nat := 0
  tail : Nat := 0
  size : Nat := 0

namespace AdvancedDev

def copyOut (dev : AdvancedDev) (user : UserMemory) (offset source n : Nat) : Option (Nat × UserMemory) :=
  if source + (n - user.uncopied offset n) ≤ 256 then
    some (copyToUser user offset (fun i => dev.buffer (Fin.ofNat 256 (source + i))) n)
  else none

def copyIn (dev : AdvancedDev) (target : Nat) (user : UserMemory) (offset n : Nat) : Option (Nat × AdvancedDev) :=
  if target + n ≤ 256 then
    some (user.uncopied offset n, { dev with buffer := fun slot =>
      if target ≤ slot ∧ slot < target + n then copyFromUser user offset n (slot - target) else dev.buffer slot })
  else none

def devRead (dev : AdvancedDev) (interrupted : Bool) (user : UserMemory) (len : Nat) :
    Option (Except Errno Nat × UserMemory × AdvancedDev) :=
  if interrupted then some (.error .erestartsys, user, dev)
  else if dev.size = 0 then some (.ok 0, user, dev)
  else
    let bytesToRead := if dev.size < len then dev.size else len
    let taken : AdvancedDev := { dev with tail := (dev.tail + bytesToRead) % 256, size := dev.size - bytesToRead }
    if 256 < dev.tail + bytesToRead then do
      let firstPart := 256 - dev.tail
      -- `size_t second_part = -first_part`
      let secondPart := (2 ^ 64 - firstPart) % 2 ^ 64
      let (left, user) ← dev.copyOut user 0 dev.tail firstPart
      if left ≠ 0 then some (.error .efault, user, dev)
      else
        let (left, user) ← dev.copyOut user firstPart 0 secondPart
        if left ≠ 0 then some (.error .efault, user, dev) else some (.ok bytesToRead, user, taken)
    else do
      let (left, user) ← dev.copyOut user 0 dev.tail bytesToRead
      if left ≠ 0 then some (.error .efault, user, dev) else some (.ok bytesToRead, user, taken)

def written (dev : AdvancedDev) (bytesToWrite : Nat) : AdvancedDev :=
  let head := (dev.head + bytesToWrite) % 256
  let size := dev.size + bytesToWrite
  if 256 < size then { dev with head, size := 256, tail := head } else { dev with head, size }

def devWrite (dev : AdvancedDev) (interrupted : Bool) (user : UserMemory) (len : Nat) :
    Option (Except Errno Nat × AdvancedDev) :=
  let bytesToWrite := if 256 < len then 256 else len
  if interrupted then some (.error .erestartsys, dev)
  else if 256 < dev.head + bytesToWrite then do
    let firstPart := 256 - dev.head
    let secondPart := bytesToWrite - firstPart
    let (left, dev) ← dev.copyIn dev.head user 0 firstPart
    if left ≠ 0 then some (.error .efault, dev)
    else
      let (left, dev) ← dev.copyIn 0 user firstPart secondPart
      if left ≠ 0 then some (.error .efault, dev) else some (.ok bytesToWrite, dev.written bytesToWrite)
  else do
    let (left, dev) ← dev.copyIn dev.head user 0 bytesToWrite
    if left ≠ 0 then some (.error .efault, dev) else some (.ok bytesToWrite, dev.written bytesToWrite)

def ioctlResetBuffer : UInt32 := 0x6B01

def ioctlGetStatus : UInt32 := 0x80046B02

def devIoctl (dev : AdvancedDev) (interrupted : Bool) (cmd : UInt32) (arg : UserMemory) :
    Except Errno Nat × UserMemory × AdvancedDev :=
  if cmd = ioctlResetBuffer then
    if interrupted then (.error .erestartsys, arg, dev) else (.ok 0, arg, {})
  else if cmd = ioctlGetStatus then
    if interrupted then (.error .erestartsys, arg, dev)
    else
      let (left, arg) := copyToUser arg 0 (fun i => (littleEndian 4 dev.size).getD i 0) 4
      if left ≠ 0 then (.error .efault, arg, dev) else (.ok 0, arg, dev)
  else (.error .enotty, arg, dev)

def deviceSetLlseek (dev : AdvancedDev) (interrupted : Bool) (offset whence : Int) : Except Errno Nat × AdvancedDev :=
  if interrupted then (.error .erestartsys, dev)
  else if whence = 0 ∧ offset = 0 then (.ok 0, {})
  else (.error .espipe, dev)

inductive Call where
  | write (interrupted : Bool) (user : UserMemory) (len : Nat)
  | read (interrupted : Bool) (user : UserMemory) (len : Nat)
  | ioctl (interrupted : Bool) (cmd : UInt32) (arg : UserMemory)
  | llseek (interrupted : Bool) (offset whence : Int)

def step (dev : AdvancedDev) : Call → Option AdvancedDev
  | .write interrupted user len => (dev.devWrite interrupted user len).map Prod.snd
  | .read interrupted user len => (dev.devRead interrupted user len).map fun result => result.2.2
  | .ioctl interrupted cmd arg => some (dev.devIoctl interrupted cmd arg).2.2
  | .llseek interrupted offset whence => some (dev.deviceSetLlseek interrupted offset whence).2

/-- The bytes that have been written and not yet read, oldest first. -/
def contents (dev : AdvancedDev) : List UInt8 := cyclic dev.buffer dev.tail dev.size

end AdvancedDev

end KnowledgeAcquisition.Kernel
