import KnowledgeAcquisition.MachineLearning.Tensor2D

/-!
# Matrices of a static size

`Matrix` of `laboratory/cpp/Math/Matrix/matrix.h` over any ring in place of `double`. A result `none` is an access
outside of an array.
-/

namespace KnowledgeAcquisition.Math
open MachineLearning.Tensor2D (forEach store accumulate)

structure Matrix (α : Type*) (Rows Cols : Nat) where
  data : List α
  size : data.length = Rows * Cols

namespace Matrix

variable {α : Type*} {Rows Cols M K N : Nat}

def ofArray (data : List α) : Option (Matrix α Rows Cols) :=
  if size : data.length = Rows * Cols then some { data, size } else none

def call (A : Matrix α Rows Cols) (r c : Nat) : Option α := A.data[r * Cols + c]?

variable [Zero α]

def transpose (A : Matrix α Rows Cols) : Option (Matrix α Cols Rows) := do
  let data ← forEach Rows (List.replicate (Cols * Rows) 0) fun data r =>
    forEach Cols data fun data c => do
      let value ← A.call r c
      store data (c * Rows + r) value
  ofArray data

structure Filling (α : Type*) where
  minorData : List α
  targetIdx : Nat

def Filling.push (s : Filling α) (value : α) : Option (Filling α) :=
  (store s.minorData s.targetIdx value).map fun minorData => { minorData, targetIdx := s.targetIdx + 1 }

def copyRow (A : Matrix α Rows Cols) (excludeCol r : Nat) (s : Filling α) : Option (Filling α) :=
  forEach Cols s fun s c => if c = excludeCol then some s else (A.call r c).bind s.push

def getMinor (A : Matrix α Rows Cols) (excludeRow excludeCol : Nat) : Option (Matrix α (Rows - 1) (Cols - 1)) := do
  let blank : Filling α := { minorData := List.replicate ((Rows - 1) * (Cols - 1)) 0, targetIdx := 0 }
  let filled ← forEach Rows blank fun s r => if r = excludeRow then some s else A.copyRow excludeCol r s
  ofArray filled.minorData

variable [One α] [Add α] [Mul α] [Neg α] [Sub α]

structure Expansion (α : Type*) where
  det : α
  sign : α

/-- Without rows the template has no instance. -/
def determinant : {N : Nat} → Matrix α N N → Option α
  | 0, _ => none
  | 1, A => A.call 0 0
  | 2, A => do
      let a ← A.call 0 0
      let d ← A.call 1 1
      let b ← A.call 0 1
      let c ← A.call 1 0
      some (a * d - b * c)
  | N + 3, A =>
      let start : Expansion α := { det := 0, sign := 1 }
      let expansion := forEach (N + 3) start fun s c => do
        let minor ← A.getMinor 0 c
        let minorDet ← determinant minor
        let value ← A.call 0 c
        some { det := s.det + s.sign * value * minorDet, sign := -s.sign }
      expansion.map Expansion.det

def multiply (A : Matrix α M K) (B : Matrix α K N) : Option (Matrix α M N) := do
  let data ← accumulate M K N A.call B.call (fun i j => i * N + j) (List.replicate (M * N) 0)
  ofArray data

end Matrix

end KnowledgeAcquisition.Math
