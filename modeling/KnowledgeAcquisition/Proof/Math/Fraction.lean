import KnowledgeAcquisition.Math.Fraction
import Mathlib.Data.Rat.Lemmas
import Mathlib.Tactic.FieldSimp
import Mathlib.Tactic.Ring

/-!
# Reduced results

Where no signed operation overflows, the constructor gives the canonical form of its quotient, and the operations hand
it a quotient that is their result.
-/

namespace KnowledgeAcquisition.Proof.Math
open KnowledgeAcquisition.Math

variable {n d : Int}

def Representable (q : ℚ) : Prop := IsLongLong q.num ∧ IsLongLong q.den

def canonical (q : ℚ) : Fraction := { num := q.num, den := q.den }

/-- The outcome is the reduced form of `q`, if that is representable. -/
def Exactly (outcome : Option Fraction) (q : ℚ) : Prop := Representable q → outcome = some (canonical q)

theorem signed_eq_some_iff {m : Int} : signed n = some m ↔ IsLongLong n ∧ n = m := by
  unfold signed
  split
  · rename_i fits
    rw [Option.some.injEq, and_iff_right fits]
  · rename_i outside
    constructor
    · nofun
    · rintro ⟨fits, -⟩
      exact absurd fits outside

theorem isLongLong_of_natAbs (fits : (n.natAbs : Int) ≤ maxLongLong) : IsLongLong n := by
  unfold IsLongLong minLongLong
  unfold maxLongLong at fits ⊢
  omega

theorem signed_of_natAbs (fits : (n.natAbs : Int) ≤ maxLongLong) : signed n = some n :=
  signed_eq_some_iff.mpr ⟨isLongLong_of_natAbs fits, rfl⟩

theorem natAbs_factor_le {g a : Int} (positive : 0 < g) : a.natAbs ≤ (g * a).natAbs := by
  rw [Int.natAbs_mul]
  exact Nat.le_mul_of_pos_left _ (Int.natAbs_pos.mpr (ne_of_gt positive))

theorem new_eq (nonzero : d ≠ 0) (fitsNum : (n.natAbs : Int) ≤ maxLongLong) (fitsDen : (d.natAbs : Int) ≤ maxLongLong) :
    Fraction.new n d = some (canonical (n / d)) := by
  have common : KnowledgeAcquisition.Math.gcd n d = some (Int.gcd n d : Int) := if_pos ⟨fitsNum, fitsDen⟩
  have positive : 0 < (Int.gcd n d : Int) := Int.natCast_pos.mpr (Int.gcd_pos_of_ne_zero_right n nonzero)
  have num := Rat.num_divInt n d
  have den := Rat.den_divInt n d
  rw [if_neg nonzero, Int.gcd_comm, Rat.divInt_eq_div] at den
  rw [Int.gcd_comm, Rat.divInt_eq_div] at num
  obtain ⟨a, num_eq⟩ := Int.gcd_dvd_left n d
  obtain ⟨b, den_eq⟩ := Int.gcd_dvd_right n d
  rw [canonical, num, den, Fraction.new, if_neg nonzero, common]
  generalize Int.gcd n d = g at positive num_eq den_eq ⊢
  subst num_eq den_eq
  have cancel : (g : Int) ≠ 0 := ne_of_gt positive
  have fitsA := Int.le_trans (Int.ofNat_le.mpr (natAbs_factor_le (a := a) positive)) fitsNum
  have fitsB := Int.le_trans (Int.ofNat_le.mpr (natAbs_factor_le (a := b) positive)) fitsDen
  have lowest : (((g * b : Int).natAbs / g : Nat) : Int) = b.natAbs := by
    rw [Int.natAbs_mul, Int.natAbs_natCast, Nat.mul_div_cancel_left _ (Int.natCast_pos.mp positive)]
  have sign : (g * b : Int).sign * (g * a) / g = b.sign * a := by
    rw [Int.sign_mul, Int.sign_eq_one_of_pos positive, one_mul, mul_left_comm, Int.mul_ediv_cancel_left _ cancel]
  rw [lowest, sign]
  simp only [Option.bind_eq_bind, Option.bind_some, Int.mul_tdiv_cancel_left _ cancel, signed_of_natAbs fitsA,
    signed_of_natAbs fitsB]
  rcases lt_or_gt_of_ne (right_ne_zero_of_mul nonzero) with negative | positive
  · rw [if_pos negative, signed_of_natAbs (by rwa [Int.natAbs_neg]), signed_of_natAbs (by rwa [Int.natAbs_neg]),
      Int.sign_eq_neg_one_of_neg negative, Int.ofNat_natAbs_of_nonpos (le_of_lt negative), neg_one_mul]
    rfl
  · rw [if_neg (not_lt.mpr (le_of_lt positive)), Int.sign_eq_one_of_pos positive,
      Int.natAbs_of_nonneg (le_of_lt positive), one_mul]

theorem gcd_bounds {m common : Int} (found : KnowledgeAcquisition.Math.gcd n m = some common) :
    (n.natAbs : Int) ≤ maxLongLong ∧ (m.natAbs : Int) ≤ maxLongLong := by
  unfold KnowledgeAcquisition.Math.gcd at found
  split at found
  · assumption
  · cases found

theorem new_bounds {f : Fraction} (nonzero : d ≠ 0) (made : Fraction.new n d = some f) :
    (n.natAbs : Int) ≤ maxLongLong ∧ (d.natAbs : Int) ≤ maxLongLong := by
  rw [Fraction.new, if_neg nonzero] at made
  obtain ⟨common, found, _⟩ := Option.bind_eq_some_iff.mp made
  exact gcd_bounds found

def Produced (f : Fraction) : Prop := ∃ n d, IsLongLong n ∧ IsLongLong d ∧ Fraction.new n d = some f

theorem Produced.den_pos {f : Fraction} (produced : Produced f) : 0 < f.den := by
  obtain ⟨n, d, -, -, made⟩ := produced
  by_cases zero : d = 0
  · rw [Fraction.new, if_pos zero] at made
    cases made
    exact Int.zero_lt_one
  · obtain ⟨fitsNum, fitsDen⟩ := new_bounds zero made
    rw [new_eq zero fitsNum fitsDen] at made
    cases made
    exact Int.natCast_pos.mpr (Rat.den_pos _)

theorem natAbs_le_iff (fits : IsLongLong n) : (n.natAbs : Int) ≤ maxLongLong ↔ n ≠ minLongLong := by
  unfold IsLongLong minLongLong maxLongLong at fits
  unfold minLongLong maxLongLong
  omega

/-! ## The operations -/

variable {op : Operation} {f g : Fraction}

def toRat (f : Fraction) : ℚ := f.num / f.den

def exact (op : Operation) (f g : Fraction) : ℚ :=
  match op with
  | .add => toRat f + toRat g
  | .substract => toRat f - toRat g
  | .multiply => toRat f * toRat g
  | .devide => toRat f / toRat g

def numerator (op : Operation) (f g : Fraction) : Int :=
  match op with
  | .add => f.num * g.den + g.num * f.den
  | .substract => f.num * g.den - g.num * f.den
  | .multiply => f.num * g.num
  | .devide => f.num * g.den

def denominator (op : Operation) (f g : Fraction) : Int :=
  match op with
  | .devide => f.den * g.num
  | _ => f.den * g.den

def crossProducts (op : Operation) (f g : Fraction) : List Int :=
  match op with
  | .add | .substract => [f.num * g.den, g.num * f.den]
  | .multiply | .devide => []

/-- No overflow before the constructor, and none in it. -/
structure InRange (op : Operation) (f g : Fraction) : Prop where
  cross : ∀ product ∈ crossProducts op f g, IsLongLong product
  num : (numerator op f g).natAbs ≤ maxLongLong
  den : (denominator op f g).natAbs ≤ maxLongLong

theorem exact_eq (denF : 0 < f.den) (denG : 0 < g.den) :
    exact op f g = (numerator op f g : ℚ) / (denominator op f g : ℚ) := by
  have nonzeroF : (f.den : ℚ) ≠ 0 := Int.cast_ne_zero.mpr (ne_of_gt denF)
  have nonzeroG : (g.den : ℚ) ≠ 0 := Int.cast_ne_zero.mpr (ne_of_gt denG)
  cases op with
  | add =>
      simp only [exact, toRat, numerator, denominator, Int.cast_add, Int.cast_mul]
      rw [div_add_div _ _ nonzeroF nonzeroG, mul_comm (f.den : ℚ) (g.num : ℚ)]
  | substract =>
      simp only [exact, toRat, numerator, denominator, Int.cast_sub, Int.cast_mul]
      rw [div_sub_div _ _ nonzeroF nonzeroG, mul_comm (f.den : ℚ) (g.num : ℚ)]
  | multiply =>
      simp only [exact, toRat, numerator, denominator, Int.cast_mul]
      rw [div_mul_div_comm]
  | devide =>
      simp only [exact, toRat, numerator, denominator, Int.cast_mul]
      rw [div_div_div_eq]

theorem bind_signed_eq_some_iff {m : Int} {next : Int → Option Fraction} {r : Fraction} :
    (signed m).bind next = some r ↔ IsLongLong m ∧ next m = some r := by
  rw [Option.bind_eq_some_iff]
  constructor
  · rintro ⟨_, computed, continued⟩
    obtain ⟨fits, rfl⟩ := signed_eq_some_iff.mp computed
    exact ⟨fits, continued⟩
  · rintro ⟨fits, continued⟩
    exact ⟨m, signed_eq_some_iff.mpr ⟨fits, rfl⟩, continued⟩

theorem run_eq_some_iff {r : Fraction} :
    op.run f g = some r ↔ (∀ product ∈ crossProducts op f g, IsLongLong product) ∧ IsLongLong (numerator op f g) ∧
      IsLongLong (denominator op f g) ∧ Fraction.new (numerator op f g) (denominator op f g) = some r := by
  cases op with
  | add =>
      rw [crossProducts, List.forall_mem_cons, List.forall_mem_singleton, and_assoc]
      simp only [Operation.run, Fraction.add, Option.bind_eq_bind, bind_signed_eq_some_iff, numerator, denominator]
  | substract =>
      rw [crossProducts, List.forall_mem_cons, List.forall_mem_singleton, and_assoc]
      simp only [Operation.run, Fraction.substract, Option.bind_eq_bind, bind_signed_eq_some_iff, numerator, denominator]
  | multiply =>
      rw [crossProducts, and_iff_right (List.forall_mem_nil IsLongLong)]
      simp only [Operation.run, Fraction.multiply, Option.bind_eq_bind, bind_signed_eq_some_iff, numerator, denominator]
  | devide =>
      rw [crossProducts, and_iff_right (List.forall_mem_nil IsLongLong)]
      simp only [Operation.run, Fraction.devide, Option.bind_eq_bind, bind_signed_eq_some_iff, numerator, denominator]

theorem run_of_inRange (range : InRange op f g) :
    op.run f g = Fraction.new (numerator op f g) (denominator op f g) := by
  apply Option.ext
  intro r
  have fitsNum := isLongLong_of_natAbs range.num
  have fitsDen := isLongLong_of_natAbs range.den
  rw [run_eq_some_iff, and_iff_right range.cross, and_iff_right fitsNum, and_iff_right fitsDen]

theorem inRange_of_run {r : Fraction} (nonzero : denominator op f g ≠ 0) (ran : op.run f g = some r) :
    InRange op f g := by
  obtain ⟨cross, _, _, made⟩ := run_eq_some_iff.mp ran
  obtain ⟨fitsNum, fitsDen⟩ := new_bounds nonzero made
  exact { cross := cross, num := fitsNum, den := fitsDen }

theorem denominator_ne_zero (denF : 0 < f.den) (denG : 0 < g.den) (divisor : op = .devide → g.num ≠ 0) :
    denominator op f g ≠ 0 := by
  cases op with
  | devide => exact mul_ne_zero (ne_of_gt denF) (divisor rfl)
  | _ => exact mul_ne_zero (ne_of_gt denF) (ne_of_gt denG)

/-- Exactly the intermediate values that do not fit stand in the way of a result that does. -/
theorem fraction_exact_iff (n d : Int) (op : Operation) (f g : Fraction) :
    (IsLongLong n → IsLongLong d → d ≠ 0 → (Exactly (Fraction.new n d) (n / d) ↔
      (Representable (n / d) → n ≠ minLongLong ∧ d ≠ minLongLong))) ∧
    (Produced f → Produced g → (op = .devide → g.num ≠ 0) → (Exactly (op.run f g) (exact op f g) ↔
      (Representable (exact op f g) → InRange op f g))) := by
  constructor
  · intro fitsNum fitsDen nonzero
    rw [← natAbs_le_iff fitsNum, ← natAbs_le_iff fitsDen]
    constructor
    · intro exactly representable
      exact new_bounds nonzero (exactly representable)
    · intro bounds representable
      exact new_eq nonzero (bounds representable).1 (bounds representable).2
  · intro producedF producedG divisor
    have nonzero := denominator_ne_zero producedF.den_pos producedG.den_pos divisor
    constructor
    · intro exactly representable
      exact inRange_of_run nonzero (exactly representable)
    · intro bounds representable
      have range := bounds representable
      rw [run_of_inRange range, new_eq nonzero range.num range.den, exact_eq producedF.den_pos producedG.den_pos]

theorem fraction_exact_iff_halves :
    Exactly (Fraction.new 6 (-4)) ((6 : Int) / (-4 : Int)) ∧
      Exactly (Operation.run .add { num := 1, den := 2 } { num := 1, den := 3 })
        (exact .add { num := 1, den := 2 } { num := 1, den := 3 }) := by
  have half : Produced { num := 1, den := 2 } := ⟨1, 2, by decide, by decide, by decide⟩
  have third : Produced { num := 1, den := 3 } := ⟨1, 3, by decide, by decide, by decide⟩
  obtain ⟨made, added⟩ := fraction_exact_iff 6 (-4) .add { num := 1, den := 2 } { num := 1, den := 3 }
  constructor
  · apply (made (by decide) (by decide) (by decide)).mpr
    exact fun _ => ⟨by decide, by decide⟩
  · apply (added half third nofun).mpr
    exact fun _ => ⟨by decide, by decide, by decide⟩

/-- The denominators' product overflows, although the sum is representable. -/
theorem add_overflows :
    ¬ ∀ op f g, Produced f → Produced g → (op = .devide → g.num ≠ 0) → Exactly (op.run f g) (exact op f g) := by
  intro exactly
  let f : Fraction := { num := 1, den := 4294967296 }
  have produced : Produced f := ⟨1, 4294967296, by decide, by decide, by decide⟩
  have sum : exact .add f f = (2147483648 : ℚ)⁻¹ := by
    simp only [exact, toRat, f]
    norm_num
  have representable : Representable (exact .add f f) := by
    rw [sum, Representable, Rat.inv_ofNat_num, Rat.inv_ofNat_den]
    decide
  have ran := exactly .add f f produced produced nofun representable
  cases ran

end KnowledgeAcquisition.Proof.Math
