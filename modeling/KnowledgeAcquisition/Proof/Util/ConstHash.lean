import KnowledgeAcquisition.Util.ConstHash
import Mathlib.Algebra.Group.Nat.Even
import Mathlib.Data.List.Infix

/-!
# Bytes above the letters

`const_hash` is FNV-1a as long as no byte has its highest bit set. Such a byte flips the 56 upper bits of the
running hash, and the lowest of these, bit 8, is flipped by nothing else.
-/

namespace KnowledgeAcquisition.Proof.Util
open KnowledgeAcquisition.Util

def high (byte : UInt8) : Bool := byte.toBitVec.msb

theorem high_eq_false_iff (byte : UInt8) : high byte = false ↔ byte < 128 := by
  rw [high, BitVec.msb_eq_decide, decide_eq_false_iff_not, UInt8.lt_iff_toNat_lt]
  exact Nat.not_le

theorem word_of_low {byte : UInt8} (low : high byte = false) : word byte = byte.toUInt64 := by
  apply UInt64.toBitVec_inj.mp
  exact BitVec.signExtend_eq_setWidth_of_msb_false low

theorem constHash_snoc (str : List UInt8) (byte : UInt8) :
    constHash (str ++ [byte]) = (constHash str ^^^ word byte) * 0x100000001b3 := by
  rw [constHash, List.foldl_append]
  rfl

theorem fnv1a_snoc (str : List UInt8) (byte : UInt8) :
    fnv1a (str ++ [byte]) = (fnv1a str ^^^ byte.toUInt64) * 0x100000001b3 := by
  rw [fnv1a, List.foldl_append]
  rfl

theorem constHash_of_low {str : List UInt8} (low : ∀ byte ∈ str, high byte = false) : constHash str = fnv1a str := by
  induction str using List.reverseRecOn with
  | nil => simp only [constHash, fnv1a, List.foldl_nil]
  | append_singleton str byte ih =>
      have before := ih fun other member => low other (List.mem_append_left _ member)
      rw [constHash_snoc, fnv1a_snoc, before, word_of_low (low byte (by simp))]

def nine (hash : UInt64) : BitVec 9 := hash.toBitVec.setWidth 9

def flip (odd : Bool) : BitVec 9 := if odd then 256#9 else 0#9

theorem flip_xor (odd other : Bool) : flip odd ^^^ flip other = flip (odd ^^ other) := by
  cases odd <;> cases other <;> rfl

/-- Modulo 512 a flip of the highest bit is the addition of 256, which an odd factor does not change. -/
theorem flip_mul (x : BitVec 9) (odd : Bool) : (x ^^^ flip odd) * 0x1b3#9 = x * 0x1b3#9 ^^^ flip odd := by
  revert x odd
  decide +kernel

theorem nine_step (hash addend : UInt64) :
    nine ((hash ^^^ addend) * 0x100000001b3) = (nine hash ^^^ nine addend) * 0x1b3#9 := by
  rw [nine, UInt64.toBitVec_mul, BitVec.setWidth_mul _ _ (by decide), UInt64.toBitVec_xor, BitVec.setWidth_xor]
  rfl

theorem nine_word (byte : UInt8) : nine (word byte) = nine byte.toUInt64 ^^^ flip (high byte) := by
  have bits : ∀ x : BitVec 8, (x.signExtend 64).setWidth 9 = (x.setWidth 64).setWidth 9 ^^^ flip x.msb := by
    decide +kernel
  exact bits byte.toBitVec

theorem nine_constHash (str : List UInt8) :
    nine (constHash str) = nine (fnv1a str) ^^^ flip (str.countP high % 2 = 1) := by
  induction str using List.reverseRecOn with
  | nil => rfl
  | append_singleton str byte ih =>
      have parity : (decide (str.countP high % 2 = 1) ^^ high byte) =
          decide ((str ++ [byte]).countP high % 2 = 1) := by
        rw [List.countP_append, List.countP_singleton]
        cases high byte with
        | false => simp
        | true =>
            have swap : (str.countP high + 1) % 2 = 1 ↔ ¬ str.countP high % 2 = 1 := by omega
            simp only [if_true, swap, Bool.xor_true, decide_not]
      calc nine (constHash (str ++ [byte]))
        _ = (nine (fnv1a str) ^^^ flip (str.countP high % 2 = 1) ^^^
              (nine byte.toUInt64 ^^^ flip (high byte))) * 0x1b3#9 := by
          rw [constHash_snoc, nine_step, ih, nine_word]
        _ = (nine (fnv1a str) ^^^ nine byte.toUInt64 ^^^
              flip ((str ++ [byte]).countP high % 2 = 1)) * 0x1b3#9 := by
          rw [← parity, ← flip_xor]
          congr 1
          ac_rfl
        _ = nine (fnv1a (str ++ [byte])) ^^^ flip ((str ++ [byte]).countP high % 2 = 1) := by
          rw [flip_mul, fnv1a_snoc, nine_step]

theorem even_of_constHash_eq {str : List UInt8} (same : constHash str = fnv1a str) : Even (str.countP high) := by
  have bits := nine_constHash str
  rw [same] at bits
  have unflipped : flip (str.countP high % 2 = 1) = 0#9 := by
    apply (BitVec.xor_right_inj (nine (fnv1a str))).mp
    rw [← bits, BitVec.xor_zero]
  rw [Nat.even_iff]
  by_contra odd
  rw [show decide (str.countP high % 2 = 1) = true by simpa using odd] at unflipped
  exact absurd unflipped (by decide)

def FollowsFnv1a (str : List UInt8) : Prop := ∀ front, front <+: str → constHash front = fnv1a front

theorem low_of_followsFnv1a {str : List UInt8} (follows : FollowsFnv1a str) : ∀ byte ∈ str, high byte = false := by
  -- The first byte that is high is the only one of the string up to it.
  induction str using List.reverseRecOn with
  | nil => exact fun byte member => absurd member List.not_mem_nil
  | append_singleton str byte ih =>
      have before := ih fun front isFront => follows front (isFront.trans (List.prefix_append str [byte]))
      have none : str.countP high = 0 := by
        rw [List.countP_eq_zero]
        intro other member
        simp [before other member]
      have even := even_of_constHash_eq (follows _ List.prefix_rfl)
      rw [List.countP_append, none, List.countP_singleton] at even
      intro other member
      cases List.mem_append.mp member with
      | inl old => exact before other old
      | inr new =>
          rw [List.mem_singleton.mp new]
          cases last : high byte with
          | false => rfl
          | true => simp [last] at even

theorem constHash_fnv1a_iff (str : List UInt8) :
    (FollowsFnv1a str ↔ ∀ byte ∈ str, byte < 128) ∧
      (constHash str = fnv1a str → Even (str.countP fun byte => !(byte < 128))) := by
  have counted : (str.countP fun byte => !decide (byte < 128)) = str.countP high := by
    apply List.countP_congr
    intro byte _
    cases top : high byte with
    | false => simp [(high_eq_false_iff byte).mp top]
    | true => 
        have big : ¬ byte < 128 := fun low => by
          rw [(high_eq_false_iff byte).mpr low] at top
          cases top
        simp [big]
  refine ⟨⟨?_, ?_⟩, ?_⟩
  · intro follows byte member
    exact (high_eq_false_iff byte).mp (low_of_followsFnv1a follows byte member)
  · intro low front isFront
    apply constHash_of_low
    intro byte member
    exact (high_eq_false_iff byte).mpr (low byte (isFront.subset member))
  · intro same
    rw [counted]
    exact even_of_constHash_eq same

/-- Two bytes above the letters may cancel, and a single one never does. -/
example : constHash [0xA5, 0x80] = fnv1a [0xA5, 0x80] := by decide

theorem constHash_single_high : constHash [0xE9] ≠ fnv1a [0xE9] := by decide

end KnowledgeAcquisition.Proof.Util
