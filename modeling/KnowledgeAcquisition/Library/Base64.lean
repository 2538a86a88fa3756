import Mathlib.Tactic.Common

/-!
# Base 64

The encoding of bytes by groups of three, each written with four of 64 digits, and the strict decoding. A last group of one or
two bytes is padded with zero bits to whole digits and with equals signs to four characters.
-/

namespace KnowledgeAcquisition.Library.Base64

def alphabet : List Char := "ABCDEFGHIJKLMNOPQRSTUVWXYZabcdefghijklmnopqrstuvwxyz0123456789+/".toList

def digit (n : Nat) : Char := alphabet.get ⟨n % 64, Nat.mod_lt n (by decide)⟩

def value (char : Char) : Option Nat := alphabet.idxOf? char

def encode : List UInt8 → List Char
  | [] => []
  | [a] =>
      let n := a.toNat * 16
      [digit (n / 64), digit n, '=', '=']
  | [a, b] =>
      let n := (a.toNat * 256 + b.toNat) * 4
      [digit (n / 4096), digit (n / 64), digit n, '=']
  | a :: b :: c :: rest =>
      let n := (a.toNat * 256 + b.toNat) * 256 + c.toNat
      digit (n / 262144) :: digit (n / 4096) :: digit (n / 64) :: digit n :: encode rest

def decodeLast (w x y : Char) : Option (List UInt8) := do
  let w ← value w
  let x ← value x
  if y = '=' then some [UInt8.ofNat ((w * 64 + x) / 16)]
  else do
    let y ← value y
    let n := (w * 64 + x) * 64 + y
    some [UInt8.ofNat (n / 1024), UInt8.ofNat (n / 4)]

def decode : List Char → Option (List UInt8)
  | [] => some []
  | w :: x :: y :: z :: rest =>
      if z = '=' then if rest = [] then decodeLast w x y else none
      else do
        let w ← value w
        let x ← value x
        let y ← value y
        let z ← value z
        let bytes ← decode rest
        let n := ((w * 64 + x) * 64 + y) * 64 + z
        some (UInt8.ofNat (n / 65536) :: UInt8.ofNat (n / 256) :: UInt8.ofNat n :: bytes)
  | _ => none

theorem digit_congr {n m : Nat} (same : n % 64 = m % 64) : digit n = digit m := by
  simp only [digit, same]

theorem value_digit (n : Nat) : value (digit n) = some (n % 64) := by
  have digits : ∀ i (inside : i < 64), alphabet.idxOf? (alphabet.get ⟨i, inside⟩) = some i := by decide
  exact digits (n % 64) (Nat.mod_lt n (by decide))

theorem digit_ne_equals (n : Nat) : digit n ≠ '=' := by
  intro same
  have found := value_digit n
  rw [same] at found
  exact absurd found (by rw [show value '=' = none by decide]; nofun)

theorem getElem?_alphabet {n : Nat} (small : n < 64) : alphabet[n]? = some (digit n) := by
  have within : n < alphabet.length := small
  rw [List.getElem?_eq_getElem within, digit, List.get_eq_getElem]
  simp only [Nat.mod_eq_of_lt small]

theorem encode_length_mod (bytes : List UInt8) : (encode bytes).length % 4 = 0 := by
  induction bytes using encode.induct with
  | case1 => rfl
  | case2 a => simp only [encode, List.length_cons, List.length_nil]
  | case3 a b => simp only [encode, List.length_cons, List.length_nil]
  | case4 a b c rest ih =>
      simp only [encode, List.length_cons, Nat.add_assoc]
      rw [Nat.add_mod_right, ih]

theorem ofNat_eq {n : Nat} {byte : UInt8} (same : n % 256 = byte.toNat) : UInt8.ofNat n = byte := by
  apply UInt8.toNat_inj.mp
  rw [UInt8.toNat_ofNat', same]

theorem decode_encode (bytes : List UInt8) : decode (encode bytes) = some bytes := by
  induction bytes using encode.induct with
  | case1 => rfl
  | case2 a =>
      have small := a.toNat_lt
      have first : UInt8.ofNat ((a.toNat * 16 / 64 % 64 * 64 + a.toNat * 16 % 64) / 16) = a := ofNat_eq (by omega)
      simp only [encode, decode, decodeLast, value_digit, Option.bind_eq_bind, Option.bind_some, if_true, first]
  | case3 a b =>
      have small := a.toNat_lt
      have small' := b.toNat_lt
      simp only [encode]
      generalize written : (a.toNat * 256 + b.toNat) * 4 = n
      have number : (n / 4096 % 64 * 64 + n / 64 % 64) * 64 + n % 64 = n := by omega
      have first : UInt8.ofNat (n / 1024) = a := ofNat_eq (by omega)
      have second : UInt8.ofNat (n / 4) = b := ofNat_eq (by omega)
      simp only [decode, decodeLast, digit_ne_equals, value_digit, Option.bind_eq_bind, Option.bind_some, if_true,
        if_false, number, first, second]
  | case4 a b c rest ih =>
      have small := a.toNat_lt
      have small' := b.toNat_lt
      have small'' := c.toNat_lt
      simp only [encode]
      generalize written : (a.toNat * 256 + b.toNat) * 256 + c.toNat = n
      have number : ((n / 262144 % 64 * 64 + n / 4096 % 64) * 64 + n / 64 % 64) * 64 + n % 64 = n := by omega
      have first : UInt8.ofNat (n / 65536) = a := ofNat_eq (by omega)
      have second : UInt8.ofNat (n / 256) = b := ofNat_eq (by omega)
      have third : UInt8.ofNat n = c := ofNat_eq (by omega)
      simp only [decode, digit_ne_equals, value_digit, ih, Option.bind_eq_bind, Option.bind_some, if_false, number,
        first, second, third]

end KnowledgeAcquisition.Library.Base64
