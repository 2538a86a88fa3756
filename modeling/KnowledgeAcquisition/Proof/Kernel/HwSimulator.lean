import KnowledgeAcquisition.Kernel.HwSimulator
import Mathlib.Algebra.Group.Nat.Defs

/-!
# Hardware that is switched off

Frequency and power follow the enable flag only where `enable_store` sets them. The other two operations write them
whatever the flag says.
-/

namespace KnowledgeAcquisition.Proof.Kernel
open KnowledgeAcquisition.Kernel Library HwSimulator

variable (strings : KernelStrings)

structure Coherent (hw : HwSimulator) : Prop where
  off : hw.isEnabled = false → hw.frequencyMhz = 0 ∧ hw.powerMwatts = 0
  on : hw.isEnabled = true → minFreqMhz ≤ hw.frequencyMhz ∧ hw.frequencyMhz ≤ maxFreqMhz

def WithinLimits (buf : List UInt8) : Prop :=
  ∃ val, strings.kstrtouint buf 10 = .ok val ∧ minFreqMhz ≤ val ∧ val ≤ maxFreqMhz

def SetsProfile (buf : List UInt8) : Prop :=
  strings.strim (strings.strscpy buf maxModeLen) = ascii "performance" ∨
    strings.strim (strings.strscpy buf maxModeLen) = ascii "powersave"

def RespectsEnable (hw : HwSimulator) : HwSimulator.Call → Prop
  | .freqStore buf _ => WithinLimits strings buf → hw.isEnabled = true
  | .enableStore _ _ => True
  | .modeStore buf _ => SetsProfile strings buf → hw.isEnabled = true

variable {strings} {hw : HwSimulator} {buf : List UInt8} {count : Nat}

theorem Coherent.freqStore_iff (coherent : Coherent hw) : Coherent (hw.freqStore strings buf count).2 ↔
    (WithinLimits strings buf → hw.isEnabled = true) := by
  unfold freqStore WithinLimits
  cases parsed : strings.kstrtouint buf 10 with
  | error ret =>
      constructor
      · rintro - ⟨val, other, -⟩
        cases other
      · intro _
        exact coherent
  | ok val =>
      dsimp only
      split
      case isTrue outside =>
          constructor
          · rintro - ⟨_, same, low, high⟩
            obtain rfl := Except.ok.inj same
            rcases outside with below | above
            · exact absurd below (UInt32.not_lt.mpr low)
            · exact absurd above (UInt32.not_lt.mpr high)
          · intro _
            exact coherent
      case isFalse inside =>
          obtain ⟨low, high⟩ := not_or.mp inside
          constructor
          · rintro after -
            by_contra disabled
            have zero : val = 0 := (after.off (Bool.eq_false_iff.mpr disabled)).1
            exact low (zero ▸ by decide)
          · intro enabled
            have on := enabled ⟨val, rfl, UInt32.not_lt.mp low, UInt32.not_lt.mp high⟩
            constructor
            · intro off
              rw [on] at off
              cases off
            · intro _
              exact ⟨UInt32.not_lt.mp low, UInt32.not_lt.mp high⟩

theorem coherent_enableStore (coherent : Coherent hw) : Coherent (hw.enableStore strings buf count).2 := by
  unfold enableStore
  cases strings.kstrtobool buf with
  | error ret => exact coherent
  | ok val =>
      cases val with
      | true =>
          have limits : minFreqMhz ≤ 1200 ∧ 1200 ≤ maxFreqMhz := by decide
          exact ⟨nofun, fun _ => limits⟩
      | false => exact ⟨fun _ => ⟨rfl, rfl⟩, nofun⟩

theorem coherent_profile_iff {powerMode : List UInt8} {frequencyMhz powerMwatts : UInt32}
    (positive : frequencyMhz ≠ 0) (low : minFreqMhz ≤ frequencyMhz) (high : frequencyMhz ≤ maxFreqMhz) :
    Coherent { hw with powerMode, frequencyMhz, powerMwatts } ↔ hw.isEnabled = true := by
  constructor
  · intro after
    by_contra disabled
    exact positive (after.off (Bool.eq_false_iff.mpr disabled)).1
  · intro on
    constructor
    · intro off
      rw [show hw.isEnabled = false from off] at on
      cases on
    · intro _
      exact ⟨low, high⟩

theorem Coherent.modeStore_iff (coherent : Coherent hw) : Coherent (hw.modeStore strings buf count).2 ↔
    (SetsProfile strings buf → hw.isEnabled = true) := by
  unfold modeStore SetsProfile
  dsimp only
  by_cases performance : strings.strim (strings.strscpy buf maxModeLen) = ascii "performance"
  · rw [if_pos performance]
    simp only [performance, true_or, true_implies]
    exact coherent_profile_iff (by decide) (by decide) (by decide)
  · rw [if_neg performance]
    by_cases powersave : strings.strim (strings.strscpy buf maxModeLen) = ascii "powersave"
    · rw [if_pos powersave]
      simp only [powersave, or_true, true_implies]
      exact coherent_profile_iff (by decide) (by decide) (by decide)
    · rw [if_neg powersave]
      simp only [performance, powersave, or_self, false_implies, iff_true]
      exact ⟨coherent.off, coherent.on⟩

theorem Coherent.step_iff (coherent : Coherent hw) (call : HwSimulator.Call) :
    RespectsEnable strings hw call ↔ ∀ next ∈ hw.step strings call, Coherent next := by
  have only : ∀ next : HwSimulator, (∀ s ∈ some next, Coherent s) ↔ Coherent next := by
    intro next
    simp
  cases call with
  | freqStore buf count => exact coherent.freqStore_iff.symm.trans (only _).symm
  | enableStore buf count => exact ⟨fun _ => (only _).mpr (coherent_enableStore coherent), fun _ => trivial⟩
  | modeStore buf count => exact coherent.modeStore_iff.symm.trans (only _).symm

theorem new_coherent : Coherent {} := ⟨nofun, fun _ => ⟨by decide, by decide⟩⟩

theorem run_coherent_iff (strings : KernelStrings) (calls : List HwSimulator.Call) :
    (∀ made later, calls = made ++ later → ∀ hw ∈ Trace.run (HwSimulator.step strings) {} made, Coherent hw) ↔
      Trace.Meets (HwSimulator.step strings) (RespectsEnable strings) {} calls :=
  (Trace.meets_iff_throughout (fun _ call coherent => coherent.step_iff call) new_coherent calls).symm

/-! ## A frequency without power -/

def isSpace (letter : UInt8) : Bool := letter = 32 || 9 ≤ letter && letter ≤ 13 || letter = 160

/-- The functions of the kernel, as they are documented. -/
def documented : KernelStrings where
  kstrtouint buf base :=
    let digits := if buf.getLast? = some 10 then buf.dropLast else buf
    let digits := if digits.head? = some 43 then digits.tail else digits
    if digits = [] ∨ ¬ digits.all (fun digit => 48 ≤ digit && digit ≤ 57) then .error (-22)
    else
      let val := digits.foldl (fun val digit => val * base + (digit - 48).toNat) 0
      if 2 ^ 32 ≤ val then .error (-34) else .ok (UInt32.ofNat val)
  kstrtobool buf :=
    match buf with
    | [] => .error (-22)
    | first :: rest =>
        if first ∈ ascii "yYtT1" then .ok true
        else if first ∈ ascii "nNfF0" then .ok false
        else if first ∈ ascii "oO" then
          if rest.head? ∈ [some 110, some 78] then .ok true
          else if rest.head? ∈ [some 102, some 70] then .ok false
          else .error (-22)
        else .error (-22)
  strscpy buf count := (buf.takeWhile (· ≠ 0)).take (count - 1)
  strim text := (text.reverse.dropWhile isSpace).reverse

/-- `echo 0 > enable`, then `echo performance > power_mode`. -/
theorem performance_while_off : ¬ ∀ calls made later, calls = made ++ later →
    ∀ hw ∈ Trace.run (HwSimulator.step documented) {} made, Coherent hw := by
  intro coherent
  have state : (Trace.run (HwSimulator.step documented) {} [.enableStore (ascii "0\n") 2,
      .modeStore (ascii "performance\n") 12]).map (fun hw => (hw.isEnabled, hw.frequencyMhz)) =
        some (false, 4000) := by decide
  obtain ⟨hw, ran, state⟩ := Option.map_eq_some_iff.mp state
  obtain ⟨off, frequency⟩ := Prod.mk.inj state
  have zero := ((coherent _ _ [] (List.append_nil _).symm hw ran).off off).1
  rw [frequency] at zero
  cases zero

end KnowledgeAcquisition.Proof.Kernel
