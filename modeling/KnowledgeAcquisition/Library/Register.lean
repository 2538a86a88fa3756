import Mathlib.Data.List.Basic
import Mathlib.Logic.Function.Iterate

/-!
# Feedback shift registers

A register of `w` bits that drops its lowest bit and adds a polynomial when that bit was set. Inputs of `n` bits
are added to the register and shifted through. As many inputs as fit into the register arrive there as one word,
so that two sequences of that many inputs leave different registers.
-/

namespace KnowledgeAcquisition.Library.Register

variable {w n : Nat} {poly : BitVec w}

def shift (poly x : BitVec w) : BitVec w := if x.getLsbD 0 then (x >>> 1) ^^^ poly else x >>> 1

theorem shift_bit (x : BitVec w) (i : Nat) :
    (shift poly x).getLsbD i = (x.getLsbD (i + 1) ^^ (x.getLsbD 0 && poly.getLsbD i)) := by
  unfold shift
  cases x.getLsbD 0 with
  | true => simp [Nat.add_comm]
  | false => simp [Nat.add_comm]

theorem shift_xor (x y : BitVec w) : shift poly (x ^^^ y) = shift poly x ^^^ shift poly y := by
  apply BitVec.eq_of_getLsbD_eq
  intro i _
  simp only [shift_bit, BitVec.getLsbD_xor]
  cases x.getLsbD (i + 1) <;> cases y.getLsbD (i + 1) <;> cases x.getLsbD 0 <;> cases y.getLsbD 0 <;> simp

theorem shift_injective (top : poly.getLsbD (w - 1) = true) : Function.Injective (shift poly) := by
  intro x y same
  have bits : ∀ i, (x.getLsbD (i + 1) ^^ (x.getLsbD 0 && poly.getLsbD i)) =
      (y.getLsbD (i + 1) ^^ (y.getLsbD 0 && poly.getLsbD i)) := by
    intro i
    rw [← shift_bit, ← shift_bit, same]
  have lowest : x.getLsbD 0 = y.getLsbD 0 := by
    have last := bits (w - 1)
    rw [top, BitVec.getLsbD_of_ge x _ (by omega), BitVec.getLsbD_of_ge y _ (by omega)] at last
    simpa using last
  apply BitVec.eq_of_getLsbD_eq
  intro i _
  cases i with
  | zero => exact lowest
  | succ i =>
      have here := bits i
      rw [lowest] at here
      exact Bool.xor_left_inj.mp here

theorem iterate_xor (n : Nat) (x y : BitVec w) :
    (shift poly)^[n] (x ^^^ y) = (shift poly)^[n] x ^^^ (shift poly)^[n] y := by
  induction n generalizing x y with
  | zero => rfl
  | succ n ih => rw [Function.iterate_succ_apply, shift_xor, ih]; rfl

/-- What lies above the lowest bits comes down without meeting the polynomial. -/
theorem iterate_shiftLeft {n : Nat} {x : BitVec w} (fits : ∀ i, w ≤ i + n → x.getLsbD i = false) :
    (shift poly)^[n] (x <<< n) = x := by
  induction n with
  | zero => rw [BitVec.shiftLeft_zero, Function.iterate_zero, id]
  | succ n ih =>
      have down : shift poly (x <<< (n + 1)) = x <<< n := by
        apply BitVec.eq_of_getLsbD_eq
        intro i inside
        rw [shift_bit, BitVec.getLsbD_shiftLeft, BitVec.getLsbD_shiftLeft, BitVec.getLsbD_shiftLeft,
          Nat.add_sub_add_right]
        by_cases last : i + 1 < w
        · simp [inside, last]
        · have top := fits (i - n) (by omega)
          simp [last, top]
      rw [Function.iterate_succ_apply, down]
      exact ih fun i high => fits i (by omega)

theorem iterate_injective (top : poly.getLsbD (w - 1) = true) (n : Nat) : Function.Injective (shift poly)^[n] :=
  (shift_injective top).iterate n

def absorb (poly x : BitVec w) (input : BitVec n) : BitVec w := (shift poly)^[n] (x ^^^ input.setWidth w)

def pack : List (BitVec n) → BitVec w
  | [] => 0
  | input :: inputs => input.setWidth w ^^^ (pack inputs <<< n)

theorem pack_bit_high {inputs : List (BitVec n)} {i : Nat} (high : n * inputs.length ≤ i) :
    (pack inputs : BitVec w).getLsbD i = false := by
  induction inputs generalizing i with
  | nil => simp [pack]
  | cons input inputs ih =>
      rw [List.length_cons, Nat.mul_succ] at high
      rw [pack, BitVec.getLsbD_xor, BitVec.getLsbD_setWidth, BitVec.getLsbD_shiftLeft, ih (by omega),
        BitVec.getLsbD_of_ge input i (by omega)]
      simp

theorem foldl_absorb {inputs : List (BitVec n)} (fits : n * inputs.length ≤ w) (x : BitVec w) :
    inputs.foldl (absorb poly) x = (shift poly)^[n * inputs.length] (x ^^^ pack inputs) := by
  induction inputs generalizing x with
  | nil => simp [pack]
  | cons input inputs ih =>
      rw [List.length_cons, Nat.mul_succ] at fits
      have room : ∀ i, w ≤ i + n → (pack inputs : BitVec w).getLsbD i = false :=
        fun i high => pack_bit_high (by omega)
      calc (input :: inputs).foldl (absorb poly) x
        _ = (shift poly)^[n * inputs.length] (absorb poly x input ^^^ pack inputs) := ih (by omega) _
        _ = (shift poly)^[n * inputs.length] (absorb poly x input ^^^ (shift poly)^[n] (pack inputs <<< n)) := by
          rw [iterate_shiftLeft room]
        _ = (shift poly)^[n * inputs.length] ((shift poly)^[n] (x ^^^ pack (input :: inputs))) := by
          rw [absorb, ← iterate_xor, pack, BitVec.xor_assoc]
        _ = (shift poly)^[n * (input :: inputs).length] (x ^^^ pack (input :: inputs)) := by
          rw [← Function.iterate_add_apply, List.length_cons, Nat.mul_succ]

theorem pack_injective {left right : List (BitVec n)} (length : left.length = right.length)
    (fits : n * left.length ≤ w) (same : (pack left : BitVec w) = pack right) : left = right := by
  induction left generalizing right with
  | nil => exact (List.eq_nil_of_length_eq_zero length.symm).symm
  | cons a left ih =>
      cases right with
      | nil => cases length
      | cons b right =>
          rw [List.length_cons, Nat.mul_succ] at fits
          have first : a = b := by
            apply BitVec.eq_of_getLsbD_eq
            intro i inside
            have bit := congrArg (fun word => word.getLsbD i) same
            simp only [pack, BitVec.getLsbD_xor, BitVec.getLsbD_setWidth, BitVec.getLsbD_shiftLeft] at bit
            simpa [inside, show i < w by omega] using bit
          subst first
          rw [pack, pack, BitVec.xor_right_inj] at same
          have lower : ∀ inputs : List (BitVec n), inputs.length = left.length →
              (shift 0)^[n] (pack inputs <<< n) = (pack inputs : BitVec w) :=
            fun inputs size => iterate_shiftLeft fun i high => pack_bit_high (by rw [size]; omega)
          have rest : (pack left : BitVec w) = pack right := by
            rw [← lower left rfl, same, lower right (Nat.succ.inj length).symm]
          rw [ih (Nat.succ.inj length) (by omega) rest]

theorem absorb_injective (top : poly.getLsbD (w - 1) = true) (input : BitVec n) :
    Function.Injective fun x => absorb poly x input := by
  intro x y same
  exact (BitVec.xor_left_inj _).mp (iterate_injective top n same)

theorem foldl_absorb_injective (top : poly.getLsbD (w - 1) = true) (inputs : List (BitVec n)) :
    Function.Injective fun x => inputs.foldl (absorb poly) x := by
  induction inputs with
  | nil => exact fun x y same => same
  | cons input inputs ih => exact fun x y same => absorb_injective top input (ih same)

/-- Inputs that fit into the register are told apart, whatever comes before and after them. -/
theorem burst_injective (top : poly.getLsbD (w - 1) = true) (x : BitVec w) (before after : List (BitVec n))
    {left right : List (BitVec n)} (length : left.length = right.length) (fits : n * left.length ≤ w)
    (same : (before ++ left ++ after).foldl (absorb poly) x = (before ++ right ++ after).foldl (absorb poly) x) :
    left = right := by
  simp only [List.foldl_append] at same
  have window := foldl_absorb_injective top after same
  have fits' : n * right.length ≤ w := length ▸ fits
  generalize before.foldl (absorb poly) x = start at window
  rw [foldl_absorb fits, foldl_absorb fits', length] at window
  exact pack_injective length fits ((BitVec.xor_right_inj _).mp (iterate_injective top _ window))

end KnowledgeAcquisition.Library.Register
