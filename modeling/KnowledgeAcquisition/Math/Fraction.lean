import Mathlib.Data.Int.GCD

/-!
# Fractions

`CompileTimeMath::Fraction` of `laboratory/cpp/Math/Utilities/compile_time_math.h`. A `long long` is an integer; a result
`none` is the overflow of a signed operation, which a constant expression must not contain.
-/

namespace KnowledgeAcquisition.Math

def minLongLong : Int := -9223372036854775808

def maxLongLong : Int := 9223372036854775807

def IsLongLong (n : Int) : Prop := minLongLong ≤ n ∧ n ≤ maxLongLong

instance (n : Int) : Decidable (IsLongLong n) := inferInstanceAs (Decidable (_ ∧ _))

def signed (n : Int) : Option Int := if IsLongLong n then some n else none

/-- `std::gcd`, which is undefined unless both absolute values are of the type. -/
def gcd (m n : Int) : Option Int :=
  if m.natAbs ≤ maxLongLong ∧ n.natAbs ≤ maxLongLong then some (Int.gcd m n) else none

structure Fraction where
  num : Int
  den : Int
  deriving DecidableEq

namespace Fraction

def new (n d : Int) : Option Fraction :=
  if d = 0 then some { num := 0, den := 1 }
  else do
    let commonDevisor ← gcd n d
    let num ← signed (n.tdiv commonDevisor)
    let den ← signed (d.tdiv commonDevisor)
    if den < 0 then do
      let num ← signed (-num)
      let den ← signed (-den)
      some { num, den }
    else some { num, den }

def add (this other : Fraction) : Option Fraction := do
  let left ← signed (this.num * other.den)
  let right ← signed (other.num * this.den)
  let num ← signed (left + right)
  let den ← signed (this.den * other.den)
  new num den

def substract (this other : Fraction) : Option Fraction := do
  let left ← signed (this.num * other.den)
  let right ← signed (other.num * this.den)
  let num ← signed (left - right)
  let den ← signed (this.den * other.den)
  new num den

def multiply (this other : Fraction) : Option Fraction := do
  let num ← signed (this.num * other.num)
  let den ← signed (this.den * other.den)
  new num den

def devide (this other : Fraction) : Option Fraction := do
  let num ← signed (this.num * other.den)
  let den ← signed (this.den * other.num)
  new num den

end Fraction

inductive Operation where
  | add
  | substract
  | multiply
  | devide
  deriving DecidableEq

def Operation.run : Operation → Fraction → Fraction → Option Fraction
  | .add => Fraction.add
  | .substract => Fraction.substract
  | .multiply => Fraction.multiply
  | .devide => Fraction.devide

end KnowledgeAcquisition.Math
