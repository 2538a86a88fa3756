import KnowledgeAcquisition.Library.Trace

/-!
# The simulated hardware

`dummy_module.c` of `laboratory/kernel/x86_64/1_sysfs`: the store operations of the attributes `frequency`, `enable` and
`power_mode`, each of which updates the hardware in one section under the lock. A string is the list of its bytes,
without the terminating NUL.
-/

namespace KnowledgeAcquisition.Kernel
open Library

def ascii (text : String) : List UInt8 := text.toList.map fun letter => UInt8.ofNat letter.toNat

/-- The functions of the kernel that the operations hand their input to. An error is a negative number. -/
structure KernelStrings where
  kstrtouint : (buf : List UInt8) → (base : Nat) → Except Int UInt32
  kstrtobool : (buf : List UInt8) → Except Int Bool
  strscpy : (buf : List UInt8) → (count : Nat) → List UInt8
  strim : List UInt8 → List UInt8

structure HwSimulator where
  frequencyMhz : UInt32 := 1200
  powerMwatts : UInt32 := 2500
  isEnabled : Bool := true
  powerMode : List UInt8 := ascii "balanced"

namespace HwSimulator

def minFreqMhz : UInt32 := 100

def maxFreqMhz : UInt32 := 4000

def maxModeLen : Nat := 16

variable (strings : KernelStrings) (hw : HwSimulator) (buf : List UInt8) (count : Nat)

def freqStore : Except Int Nat × HwSimulator :=
  match strings.kstrtouint buf 10 with
  | .error ret => (.error ret, hw)
  | .ok val =>
      if val < minFreqMhz ∨ maxFreqMhz < val then (.error (-22), hw)
      else (.ok count, { hw with frequencyMhz := val })

def enableStore : Except Int Nat × HwSimulator :=
  match strings.kstrtobool buf with
  | .error ret => (.error ret, hw)
  | .ok val =>
      if val then (.ok count, { hw with isEnabled := val, frequencyMhz := 1200, powerMwatts := 2500 })
      else (.ok count, { hw with isEnabled := val, frequencyMhz := 0, powerMwatts := 0 })

def modeStore : Except Int Nat × HwSimulator :=
  let powerMode := strings.strim (strings.strscpy buf maxModeLen)
  if powerMode = ascii "performance" then
    (.ok count, { hw with powerMode, frequencyMhz := 4000, powerMwatts := 8000 })
  else if powerMode = ascii "powersave" then
    (.ok count, { hw with powerMode, frequencyMhz := 800, powerMwatts := 1000 })
  else (.ok count, { hw with powerMode })

inductive Call where
  | freqStore (buf : List UInt8) (count : Nat)
  | enableStore (buf : List UInt8) (count : Nat)
  | modeStore (buf : List UInt8) (count : Nat)

def step : Call → Option HwSimulator
  | .freqStore buf count => some (hw.freqStore strings buf count).2
  | .enableStore buf count => some (hw.enableStore strings buf count).2
  | .modeStore buf count => some (hw.modeStore strings buf count).2

end HwSimulator

end KnowledgeAcquisition.Kernel
