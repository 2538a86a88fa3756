import KnowledgeAcquisition.Library.Base64
import KnowledgeAcquisition.TermImage.KittyGpu
import Mathlib.Algebra.Group.Nat.Defs

/-!
# Encoding and transmission

A digit is taken from low bits of the accumulator, to which only the last bytes contribute, so what overflows is never
read. After three bytes no bits are pending, and the next group of bytes is encoded like the first one.
-/

namespace KnowledgeAcquisition.Proof.TermImage
open KnowledgeAcquisition.TermImage Library Base64

variable {s : Encoder} {fuel : Nat} {a b c : UInt8}

theorem lookup_eq : lookup = alphabet := rfl

theorem sextet_eq (val : BitVec 32) {shift : Nat} (low : shift ≤ 26) :
    (val.sshiftRight shift &&& 0x3F).toNat = val.toNat / 2 ^ shift % 64 := by
  have masked : (val.sshiftRight shift &&& 0x3F).toNat = (val.sshiftRight shift).toNat % 2 ^ 6 := by
    rw [BitVec.toNat_and]
    exact Nat.and_two_pow_sub_one_eq_mod _ 6
  rw [masked, show 64 = 2 ^ 6 from rfl]
  apply Nat.eq_of_testBit_eq
  intro i
  rw [Nat.testBit_mod_two_pow, Nat.testBit_mod_two_pow, Nat.testBit_div_two_pow, BitVec.testBit_toNat,
    BitVec.testBit_toNat, BitVec.getLsbD_sshiftRight]
  by_cases small : i < 6
  · have inside : ¬ 32 ≤ i := by omega
    have below : shift + i < 32 := by omega
    simp only [small, inside, below, decide_true, decide_false, Bool.not_false, Bool.true_and, if_true, Nat.add_comm]
  · rw [decide_eq_false small, Bool.false_and, Bool.false_and]

theorem push_eq (val : BitVec 32) {shift : Int} (low : shift ≤ 26) :
    s.push val shift = some { s with out := s.out ++ [digit (val.toNat / 2 ^ shift.toNat)] } := by
  have small : val.toNat / 2 ^ shift.toNat % 64 < 64 := Nat.mod_lt _ (by decide)
  rw [Encoder.push, sextet_eq val (by omega), lookup_eq, getElem?_alphabet small, Option.map_some,
    digit_congr (Nat.mod_mod _ 64)]

def shifted (val : BitVec 32) (byte : UInt8) : BitVec 32 := (val <<< 8) + BitVec.ofNat 32 byte.toNat

theorem shifted_toNat (val : BitVec 32) (byte : UInt8) :
    (shifted val byte).toNat = (val.toNat * 256 + byte.toNat) % 4294967296 := by
  have small := byte.toNat_lt
  rw [shifted, BitVec.toNat_add, BitVec.toNat_shiftLeft, BitVec.toNat_ofNat, Nat.shiftLeft_eq]
  omega

theorem padded_toNat (val : BitVec 32) : (val <<< 8).toNat = val.toNat * 256 % 4294967296 := by
  rw [BitVec.toNat_shiftLeft, Nat.shiftLeft_eq]

theorem shifted_one (val : BitVec 32) : (shifted val a).toNat % 256 = a.toNat := by
  have small := a.toNat_lt
  rw [shifted_toNat]
  omega

theorem shifted_two (val : BitVec 32) : (shifted (shifted val a) b).toNat % 65536 = a.toNat * 256 + b.toNat := by
  have before := shifted_one val (a := a)
  have small := b.toNat_lt
  rw [shifted_toNat]
  omega

theorem shifted_three (val : BitVec 32) :
    (shifted (shifted (shifted val a) b) c).toNat % 16777216 = (a.toNat * 256 + b.toNat) * 256 + c.toNat := by
  have before := shifted_two val (a := a) (b := b)
  have small := c.toNat_lt
  rw [shifted_toNat]
  omega

section Groups

variable {out : List Char} {val : BitVec 32}

theorem run_pending (valb : Int) (pending : 0 ≤ valb) (low : valb ≤ 26) :
    Loop.run flush (fuel + 1) { out, val, valb } =
      Loop.run flush fuel { out := out ++ [digit (val.toNat / 2 ^ valb.toNat)], val, valb := valb - 6 } := by
  have pushed : flush { out, val, valb } = some (.inl
      { out := out ++ [digit (val.toNat / 2 ^ valb.toNat)], val, valb := valb - 6 }) := by
    rw [flush, if_pos pending, push_eq val low, Option.map_some]
  rw [Loop.run, pushed]

theorem run_done (valb : Int) (done : valb < 0) :
    Loop.run flush (fuel + 1) { out, val, valb } = some { out, val, valb } := by
  rw [Loop.run, flush, if_neg (Int.not_le.mpr done)]

theorem encodeByte_first : encodeByte (fuel + 3) { out, val, valb := -6 } a = some
    { out := out ++ [digit ((shifted val a).toNat / 4)], val := shifted val a, valb := -4 } := by
  change Loop.run flush (fuel + 3) { out, val := shifted val a, valb := 2 } = _
  rw [run_pending 2 (by decide) (by decide)]
  exact run_done (-4) (by decide)

theorem encodeByte_second : encodeByte (fuel + 3) { out, val, valb := -4 } b = some
    { out := out ++ [digit ((shifted val b).toNat / 16)], val := shifted val b, valb := -2 } := by
  change Loop.run flush (fuel + 3) { out, val := shifted val b, valb := 4 } = _
  rw [run_pending 4 (by decide) (by decide)]
  exact run_done (-2) (by decide)

theorem encodeByte_third : encodeByte (fuel + 3) { out, val, valb := -2 } c = some
    { out := out ++ [digit ((shifted val c).toNat / 64)] ++ [digit (shifted val c).toNat], val := shifted val c,
      valb := -6 } := by
  change Loop.run flush (fuel + 3) { out, val := shifted val c, valb := 6 } = _
  rw [run_pending 6 (by decide) (by decide)]
  refine (run_pending 0 (by decide) (by decide)).trans ?_
  rw [run_done (0 - 6) (by decide), Int.toNat_zero, Nat.pow_zero, Nat.div_one]
  rfl

theorem encodeByte_group (data : List UInt8) :
    (a :: b :: c :: data).foldlM (encodeByte (fuel + 3)) { out, val, valb := -6 } =
      data.foldlM (encodeByte (fuel + 3))
        { out := out ++ encode [a, b, c], val := shifted (shifted (shifted val a) b) c, valb := -6 } := by
  have one := shifted_one val (a := a)
  have two := shifted_two val (a := a) (b := b)
  have three := shifted_three val (a := a) (b := b) (c := c)
  have small := b.toNat_lt
  have small' := c.toNat_lt
  simp only [List.foldlM_cons, encodeByte_first, encodeByte_second, encodeByte_third, Option.bind_eq_bind,
    Option.bind_some, encode, List.append_assoc, List.cons_append, List.nil_append]
  generalize written : (a.toNat * 256 + b.toNat) * 256 + c.toNat = n at three
  have first : digit ((shifted val a).toNat / 4) = digit (n / 262144) := digit_congr (by omega)
  have second : digit ((shifted (shifted val a) b).toNat / 16) = digit (n / 4096) := digit_congr (by omega)
  have third : digit ((shifted (shifted (shifted val a) b) c).toNat / 64) = digit (n / 64) := digit_congr (by omega)
  have fourth : digit (shifted (shifted (shifted val a) b) c).toNat = digit n := digit_congr (by omega)
  rw [first, second, third, fourth]

theorem pad_more (partly : out.length % 4 ≠ 0) : Loop.run pad (fuel + 1) out = Loop.run pad fuel (out ++ ['=']) := by
  rw [Loop.run, pad, if_pos partly]

theorem pad_done (whole : out.length % 4 = 0) : Loop.run pad (fuel + 1) out = some out := by
  rw [Loop.run, pad, if_neg (not_not.mpr whole)]

theorem length_snoc (char : Char) : (out ++ [char]).length = out.length + 1 := by
  rw [List.length_append, List.length_singleton]

theorem pad_one (three : out.length % 4 = 3) : Loop.run pad (fuel + 2) out = some (out ++ ['=']) := by
  have partly : out.length % 4 ≠ 0 := by omega
  have whole : (out ++ ['=']).length % 4 = 0 := by
    rw [length_snoc]
    omega
  rw [pad_more partly, pad_done whole]

theorem pad_two (two : out.length % 4 = 2) : Loop.run pad (fuel + 3) out = some (out ++ ['=', '=']) := by
  have partly : out.length % 4 ≠ 0 := by omega
  have three : (out ++ ['=']).length % 4 = 3 := by
    rw [length_snoc]
    omega
  rw [pad_more partly, pad_one three, List.append_assoc]
  rfl

theorem finish_pending (valb : Int) (pending : -6 < valb) (low : valb + 8 ≤ 26) : finish fuel { out, val, valb } =
    Loop.run pad fuel (out ++ [digit ((val <<< 8).toNat / 2 ^ (valb + 8).toNat)]) := by
  rw [finish, if_pos pending, push_eq _ low]
  rfl

theorem finish_one (whole : out.length % 4 = 0) :
    finish (fuel + 3) { out := out ++ [digit ((shifted val a).toNat / 4)], val := shifted val a, valb := -4 } =
      some (out ++ encode [a]) := by
  have one := shifted_one val (a := a)
  have first : digit ((shifted val a).toNat / 4) = digit (a.toNat * 16 / 64) := digit_congr (by omega)
  have last : digit ((shifted val a <<< 8).toNat / 16) = digit (a.toNat * 16) := by
    apply digit_congr
    rw [padded_toNat]
    omega
  rw [finish_pending (-4) (by decide) (by decide), encode, first, ← last]
  refine (pad_two ?_).trans ?_
  · rw [length_snoc, length_snoc]
    omega
  · simp only [List.append_assoc, List.cons_append, List.nil_append]
    rfl

theorem finish_two (whole : out.length % 4 = 0) :
    finish (fuel + 3) { out := out ++ [digit ((shifted val a).toNat / 4)] ++
        [digit ((shifted (shifted val a) b).toNat / 16)], val := shifted (shifted val a) b, valb := -2 } =
      some (out ++ encode [a, b]) := by
  have one := shifted_one val (a := a)
  have two := shifted_two val (a := a) (b := b)
  have small := b.toNat_lt
  rw [finish_pending (-2) (by decide) (by decide), encode]
  generalize written : (a.toNat * 256 + b.toNat) * 4 = n
  have first : digit ((shifted val a).toNat / 4) = digit (n / 4096) := digit_congr (by omega)
  have second : digit ((shifted (shifted val a) b).toNat / 16) = digit (n / 64) := digit_congr (by omega)
  have last : digit ((shifted (shifted val a) b <<< 8).toNat / 64) = digit n := by
    apply digit_congr
    rw [padded_toNat]
    omega
  rw [first, second, ← last]
  refine (pad_one ?_).trans ?_
  · rw [length_snoc, length_snoc, length_snoc]
    omega
  · simp only [List.append_assoc, List.cons_append, List.nil_append]
    rfl

theorem finish_spec (data : List UInt8) (whole : out.length % 4 = 0) :
    (data.foldlM (encodeByte (fuel + 3)) { out, val, valb := -6 }).bind (finish (fuel + 3)) =
      some (out ++ encode data) := by
  induction data using encode.induct generalizing out val with
  | case1 =>
      rw [encode, List.append_nil]
      exact pad_done whole
  | case2 a =>
      rw [List.foldlM_cons, encodeByte_first]
      exact finish_one whole
  | case3 a b =>
      rw [List.foldlM_cons, encodeByte_first]
      simp only [List.foldlM_cons, encodeByte_second, Option.bind_eq_bind, Option.bind_some]
      exact finish_two whole
  | case4 a b c rest ih =>
      have whole' : (out ++ encode [a, b, c]).length % 4 = 0 := by
        rw [List.length_append, Nat.add_mod, whole, encode_length_mod]
      rw [encodeByte_group, ih whole', List.append_assoc]
      simp only [encode, List.cons_append, List.nil_append]

end Groups

/-! ## Chunks -/

variable {startCmd b64 : List Char}

/-- A text in chunks of 4096 characters, of which the last alone may be shorter and is marked with 0. -/
structure Chunks (b64 : List Char) (commands : List Command) : Prop where
  joined : commands.flatMap Command.chunk = b64
  short : ∀ command ∈ commands, command.chunk.length ≤ 4096
  full : ∀ command ∈ commands.dropLast, command.chunk.length = 4096 ∧ command.m = '1'
  last : ∃ command, commands.getLast? = some command ∧ command.m = '0'

theorem Chunks.single {command : Command} (short : command.chunk.length ≤ 4096) (last : command.m = '0') :
    Chunks command.chunk [command] := by
  refine ⟨List.flatMap_singleton .., ?_, nofun, command, rfl, last⟩
  rwa [List.forall_mem_singleton]

theorem Chunks.cons {command : Command} {commands : List Command} (chunks : Chunks b64 commands)
    (full : command.chunk.length = 4096) (more : command.m = '1') :
    Chunks (command.chunk ++ b64) (command :: commands) := by
  obtain ⟨joined, short, fulls, last, atEnd, zero⟩ := chunks
  have nonempty : commands ≠ [] := List.ne_nil_of_mem (List.mem_of_getLast? atEnd)
  refine ⟨?_, ?_, ?_, last, ?_, zero⟩
  · rw [List.flatMap_cons, joined]
  · exact List.forall_mem_cons.mpr ⟨Nat.le_of_eq full, short⟩
  · rw [List.dropLast_cons_of_ne_nil nonempty]
    exact List.forall_mem_cons.mpr ⟨⟨full, more⟩, fulls⟩
  · rw [List.getLast?_cons, atEnd]
    rfl

def command (startCmd b64 : List Char) (s : Transmission) : Command :=
  { control := if s.first then startCmd else "\x1b_Gm=".toList
    m := if s.pos + 4096 < b64.length then '1' else '0'
    chunk := (b64.drop s.pos).take 4096 }

theorem transmit_step {s : Transmission} (inside : s.pos < b64.length) : transmit startCmd b64 s = some (.inl
    { pos := s.pos + 4096, first := false, written := s.written ++ [command startCmd b64 s] }) := by
  rw [transmit, if_pos inside]
  rfl

theorem transmit_run {s : Transmission} (inside : s.pos < b64.length) (enough : b64.length - s.pos < fuel) :
    ∃ commands, Loop.run (transmit startCmd b64) fuel s = some (s.written ++ commands) ∧
      Chunks (b64.drop s.pos) commands := by
  induction fuel generalizing s with
  | zero => exact absurd enough (Nat.not_lt_zero _)
  | succ fuel ih =>
      have size : (b64.drop s.pos).length = b64.length - s.pos := List.length_drop
      have length : (command startCmd b64 s).chunk.length = min 4096 (b64.length - s.pos) := by
        rw [command, List.length_take, size]
      simp only [Loop.run, transmit_step inside]
      by_cases more : s.pos + 4096 < b64.length
      · obtain ⟨commands, ran, chunks⟩ := ih
          (s := { pos := s.pos + 4096, first := false, written := s.written ++ [command startCmd b64 s] }) more
          (show b64.length - (s.pos + 4096) < fuel by omega)
        have full : (command startCmd b64 s).chunk.length = 4096 := by omega
        refine ⟨command startCmd b64 s :: commands, ?_, ?_⟩
        · rw [ran, List.append_assoc]
          rfl
        · have joined := chunks.cons full (if_pos more)
          rwa [← List.drop_drop, command, List.take_append_drop] at joined
      · cases fuel with
        | zero => exact absurd enough (by omega)
        | succ fuel =>
            refine ⟨[command startCmd b64 s], ?_, ?_⟩
            · rw [Loop.run, transmit, if_neg more]
            · have rest : (command startCmd b64 s).chunk = b64.drop s.pos := List.take_of_length_le (by omega)
              have last : Chunks (command startCmd b64 s).chunk [command startCmd b64 s] :=
                .single (by omega) (if_neg more)
              rwa [rest] at last

theorem kitty_transmission (data : List UInt8) :
    (∀ fuel ≥ 3, base64Encode fuel data = some (encode data)) ∧
    decode (encode data) = some data ∧
    ∀ startCmd b64, b64 ≠ [] → ∀ fuel > b64.length,
      ∃ commands, kittyTerminal fuel startCmd b64 = some commands ∧ Chunks b64 commands := by
  refine ⟨?_, decode_encode data, ?_⟩
  · intro fuel enough
    obtain ⟨more, rfl⟩ := Nat.exists_eq_add_of_le' enough
    exact finish_spec data rfl
  · intro startCmd b64 nonempty fuel enough
    exact transmit_run (s := { pos := 0, first := true, written := [] }) (List.length_pos_iff.mpr nonempty) enough

end KnowledgeAcquisition.Proof.TermImage
