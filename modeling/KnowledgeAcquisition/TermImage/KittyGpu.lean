import KnowledgeAcquisition.Library.Loop

/-!
# Images in base 64

`base64_encode` and the transmission loop of `linux/ubuntu/application/termimage/kitty_gpu.cpp`. An `int` that is shifted is a
word of 32 bits. A result `none` is an access outside of `lookup`, or a loop that needs more iterations.
-/

namespace KnowledgeAcquisition.TermImage
open Library

def lookup : List Char := "ABCDEFGHIJKLMNOPQRSTUVWXYZabcdefghijklmnopqrstuvwxyz0123456789+/".toList

structure Encoder where
  out : List Char
  val : BitVec 32
  valb : Int

def Encoder.push (s : Encoder) (val : BitVec 32) (shift : Int) : Option Encoder :=
  (lookup[(val.sshiftRight shift.toNat &&& 0x3F).toNat]?).map fun digit => { s with out := s.out ++ [digit] }

def flush (s : Encoder) : Option (Encoder ⊕ Encoder) :=
  if s.valb ≥ 0 then (s.push s.val s.valb).map fun s => .inl { s with valb := s.valb - 6 }
  else some (.inr s)

def encodeByte (fuel : Nat) (s : Encoder) (byte : UInt8) : Option Encoder :=
  Loop.run flush fuel { s with val := (s.val <<< 8) + BitVec.ofNat 32 byte.toNat, valb := s.valb + 8 }

def pad (out : List Char) : Option (List Char ⊕ List Char) :=
  if out.length % 4 ≠ 0 then some (.inl (out ++ ['='])) else some (.inr out)

def finish (fuel : Nat) (s : Encoder) : Option (List Char) := do
  let s ← if s.valb > -6 then s.push (s.val <<< 8) (s.valb + 8) else some s
  Loop.run pad fuel s.out

def base64Encode (fuel : Nat) (data : List UInt8) : Option (List Char) := do
  let start : Encoder := { out := [], val := 0, valb := -6 }
  let s ← data.foldlM (encodeByte fuel) start
  finish fuel s

/-- What one iteration writes: a control sequence up to `m=`, the value of `m`, and the chunk with its terminator. -/
structure Command where
  control : List Char
  m : Char
  chunk : List Char
  deriving DecidableEq

structure Transmission where
  pos : Nat
  first : Bool
  written : List Command

def chunkSize : Nat := 4096

def transmit (startCmd b64 : List Char) (s : Transmission) : Option (Transmission ⊕ List Command) :=
  if s.pos < b64.length then
    let chunk := (b64.drop s.pos).take chunkSize
    let pos := s.pos + chunkSize
    let hasMore := pos < b64.length
    let control := if s.first then startCmd else "\x1b_Gm=".toList
    some (.inl { pos, first := false, written := s.written ++ [{ control, m := if hasMore then '1' else '0', chunk }] })
  else some (.inr s.written)

def kittyTerminal (fuel : Nat) (startCmd b64 : List Char) : Option (List Command) :=
  Loop.run (transmit startCmd b64) fuel { pos := 0, first := true, written := [] }

end KnowledgeAcquisition.TermImage
