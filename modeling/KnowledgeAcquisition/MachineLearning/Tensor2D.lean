import Mathlib.Algebra.Ring.Defs
import Mathlib.Data.List.Basic
import Mathlib.Order.Lattice

/-!
# Tensors with lazy transposition

`Tensor2D` of `laboratory/cpp/MachineLearning/include/Tensor2D.h` over any type of elements. A `size_t` is a natural
number, and what is computed with it is taken modulo `2 ^ 64`. A result `none` is an exception or an
access outside of a vector.
-/

namespace KnowledgeAcquisition.MachineLearning

def sizeT (n : Nat) : Nat := n % 18446744073709551616

/-- `max_size()` of a `std::vector<float>`. -/
def maxSize : Nat := 2305843009213693951

structure Tensor2D (α : Type*) where
  rows : Nat
  cols : Nat
  data : List α
  isTransposed : Bool := false

namespace Tensor2D

variable {α σ : Type*}

/-- The constructor; a vector longer than its `max_size()` is a `std::length_error`. -/
def new (r c : Nat) (initialValue : α) : Option (Tensor2D α) :=
  if sizeT (r * c) > maxSize then none
  else some { rows := r, cols := c, data := List.replicate (sizeT (r * c)) initialValue }

def index (tensor : Tensor2D α) (r c : Nat) : Nat :=
  if tensor.isTransposed then sizeT (c * tensor.rows + r) else sizeT (r * tensor.cols + c)

def call (tensor : Tensor2D α) (r c : Nat) : Option α := tensor.data[tensor.index r c]?

def transpose (tensor : Tensor2D α) : Tensor2D α :=
  { tensor with rows := tensor.cols, cols := tensor.rows, isTransposed := !tensor.isTransposed }

def atIndex (tensor : Tensor2D α) (r c : Nat) : Option Nat :=
  if tensor.isTransposed then
    if c ≥ tensor.rows ∨ r ≥ tensor.cols then none else some (sizeT (c * tensor.rows + r))
  else
    if r ≥ tensor.rows ∨ c ≥ tensor.cols then none else some (sizeT (r * tensor.cols + c))

def atValue (tensor : Tensor2D α) (r c : Nat) : Option α := (tensor.atIndex r c).bind fun i => tensor.data[i]?

def fillZero [Zero α] (tensor : Tensor2D α) : Tensor2D α :=
  { tensor with data := List.replicate tensor.data.length 0 }

def store (data : List α) (i : Nat) (value : α) : Option (List α) :=
  if i < data.length then some (data.set i value) else none

def forEach (n : Nat) (s : σ) (body : σ → Nat → Option σ) : Option σ := (List.range n).foldlM body s

def atAdd [Add α] (tensor : Tensor2D α) (r c : Nat) (value : α) : Option (Tensor2D α) :=
  (tensor.atIndex r c).bind fun i => do
    let old ← tensor.data[i]?
    let data ← store tensor.data i (old + value)
    some { tensor with data }

def atAssign (tensor : Tensor2D α) (r c : Nat) (value : α) : Option (Tensor2D α) :=
  (tensor.atIndex r c).bind fun i => (store tensor.data i value).map fun data => { tensor with data }

variable [Zero α] [Add α] [Mul α]

def accumulate (rows inner cols : Nat) (left right : Nat → Nat → Option α) (target : Nat → Nat → Nat)
    (data : List α) : Option (List α) :=
  forEach rows data fun data i =>
    forEach inner data fun data k => do
      let aVal ← left i k
      forEach cols data fun data j => do
        let b ← right k j
        let old ← data[target i j]?
        store data (target i j) (old + aVal * b)

def sumUp (rows inner cols : Nat) (left right : Nat → Nat → Option α) (target : Nat → Nat → Nat)
    (data : List α) : Option (List α) :=
  forEach rows data fun data i =>
    forEach cols data fun data j => do
      let sum ← forEach inner 0 fun sum k => do
        let a ← left i k
        let b ← right k j
        some (sum + a * b)
      store data (target i j) sum

def products (this other result : Tensor2D α) : Option (List α) :=
  match this.isTransposed, other.isTransposed with
  | false, false =>
      accumulate this.rows this.cols other.cols (fun i k => this.data[sizeT (i * this.cols + k)]?)
        (fun k j => other.data[sizeT (k * other.cols + j)]?) (fun i j => sizeT (i * result.cols + j)) result.data
  | false, true =>
      sumUp this.rows this.cols other.cols (fun i k => this.data[sizeT (i * this.cols + k)]?)
        (fun k j => other.data[sizeT (j * other.rows + k)]?) (fun i j => sizeT (i * result.cols + j)) result.data
  | true, _ => accumulate this.rows this.cols other.cols this.call other.call result.index result.data

def matmul (this other : Tensor2D α) : Option (Tensor2D α) :=
  if this.cols ≠ other.rows then none
  else do
    let result ← new this.rows other.cols 0
    let data ← products this other result
    some { result with data }

def assignData (tensor : Tensor2D α) (value : Nat → Option α) : Option (Tensor2D α) := do
  let result ← new tensor.rows tensor.cols 0
  let data ← forEach tensor.data.length result.data fun data i => do
    let assigned ← value i
    store data i assigned
  some { result with data }

section Activations

variable {β : Type*} [Ring β] [LinearOrder β]

def relu (tensor : Tensor2D β) : Option (Tensor2D β) :=
  tensor.assignData fun i => do
    let x ← tensor.data[i]?
    some (if x > 0 then x else 0)

def reluBackward (tensor incomingGradient : Tensor2D β) : Option (Tensor2D β) :=
  if tensor.rows ≠ incomingGradient.rows ∨ tensor.cols ≠ incomingGradient.cols then none
  else
    tensor.assignData fun i => do
      let x ← tensor.data[i]?
      if x > 0 then incomingGradient.data[i]? else some 0

def sigmoid (logistic : β → β) (tensor : Tensor2D β) : Option (Tensor2D β) :=
  tensor.assignData fun i => do
    let x ← tensor.data[i]?
    some (logistic x)

def sigmoidBackward (logistic : β → β) (tensor incomingGradient : Tensor2D β) : Option (Tensor2D β) :=
  if tensor.rows ≠ incomingGradient.rows ∨ tensor.cols ≠ incomingGradient.cols then none
  else
    tensor.assignData fun i => do
      let x ← tensor.data[i]?
      let sig := logistic x
      let g ← incomingGradient.data[i]?
      some (g * sig * (1 - sig))

end Activations

end Tensor2D

end KnowledgeAcquisition.MachineLearning
