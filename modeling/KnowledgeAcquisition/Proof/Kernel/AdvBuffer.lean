import KnowledgeAcquisition.Kernel.AdvBuffer
import KnowledgeAcquisition.Library.Trace
import Mathlib.Data.List.DropRight

/-!
# The device as a queue

Whatever the calls, the bytes of the device that are not read yet lie between `tail` and `head`. A write puts its
bytes behind them and a read takes them from the front.
-/

namespace KnowledgeAcquisition.Proof.Kernel
open KnowledgeAcquisition.Kernel Library AdvancedDev

structure WellFormed (dev : AdvancedDev) : Prop where
  tail_lt : dev.tail < 256
  size_le : dev.size ≤ 256
  head_eq : dev.head = (dev.tail + dev.size) % 256

theorem new_wellFormed : WellFormed {} where
  tail_lt := by decide
  size_le := by decide
  head_eq := rfl

variable {dev : AdvancedDev} {user : UserMemory} {len n : Nat}

theorem WellFormed.head_lt (wellFormed : WellFormed dev) : dev.head < 256 := by
  rw [wellFormed.head_eq]
  exact Nat.mod_lt _ (by decide)

theorem ite_lt_eq_min (a b : Nat) : (if a < b then a else b) = min a b := by
  split
  case isTrue less => exact (Nat.min_eq_left (Nat.le_of_lt less)).symm
  case isFalse more => exact (Nat.min_eq_right (Nat.le_of_not_lt more)).symm

theorem copyIn_eq {target offset : Nat} (fits : target + n ≤ 256) : dev.copyIn target user offset n =
    some (user.uncopied offset n,
      { dev with buffer := overwrite dev.buffer target n (copyFromUser user offset n) }) := by
  rw [copyIn, if_pos fits, overwrite_linear fits]

def firstPart (dev : AdvancedDev) (n : Nat) : Nat := min n (256 - dev.head)

def Complete (dev : AdvancedDev) (user : UserMemory) (n : Nat) : Prop :=
  user.uncopied 0 (firstPart dev n) = 0 ∧ user.uncopied (firstPart dev n) (n - firstPart dev n) = 0

instance : Decidable (Complete dev user n) := inferInstanceAs (Decidable (_ ∧ _))

/-- How many places of the buffer the copies reach: those of the second copy only if the first one is complete. -/
def reached (dev : AdvancedDev) (user : UserMemory) (n : Nat) : Nat :=
  if user.uncopied 0 (firstPart dev n) = 0 then n else firstPart dev n

def arrived (dev : AdvancedDev) (user : UserMemory) (n : Nat) : Nat :=
  if user.uncopied 0 (firstPart dev n) = 0 then n - user.uncopied (firstPart dev n) (n - firstPart dev n)
  else firstPart dev n - user.uncopied 0 (firstPart dev n)

def landed (dev : AdvancedDev) (user : UserMemory) (n i : Nat) : UInt8 :=
  if i < arrived dev user n then user.byte i else 0

def copied (dev : AdvancedDev) (user : UserMemory) (n : Nat) : AdvancedDev :=
  { dev with buffer := overwrite dev.buffer dev.head (reached dev user n) (landed dev user n) }

theorem firstPart_le : firstPart dev n ≤ n := Nat.min_le_left _ _

theorem reached_le : reached dev user n ≤ n := by
  unfold reached
  split
  · exact Nat.le_refl n
  · exact firstPart_le

theorem arrived_lt (incomplete : ¬ Complete dev user n) : arrived dev user n < reached dev user n := by
  have first := user.uncopied_le 0 (firstPart dev n)
  have second := user.uncopied_le (firstPart dev n) (n - firstPart dev n)
  have part := @firstPart_le dev n
  unfold Complete at incomplete
  unfold arrived reached
  split <;> omega

theorem landed_of_complete (complete : Complete dev user n) {i : Nat} (inside : i < n) :
    landed dev user n i = user.byte i := by
  rw [landed, arrived, if_pos complete.1, complete.2, Nat.sub_zero, if_pos inside]

theorem copied_of_stopped (stopped : user.uncopied 0 (firstPart dev n) ≠ 0) : copied dev user n =
    { dev with
      buffer := overwrite dev.buffer dev.head (firstPart dev n) (copyFromUser user 0 (firstPart dev n)) } := by
  have same : ∀ i < firstPart dev n, landed dev user n i = copyFromUser user 0 (firstPart dev n) i := by
    intro i _
    rw [landed, arrived, if_neg stopped, copyFromUser, Nat.zero_add]
  rw [copied, reached, if_neg stopped, overwrite_congr same]

theorem copied_of_through (through : user.uncopied 0 (firstPart dev n) = 0) (bounded : n ≤ 256) : copied dev user n =
    { dev with
      buffer := overwrite (overwrite dev.buffer dev.head (firstPart dev n) (copyFromUser user 0 (firstPart dev n)))
        (dev.head + firstPart dev n) (n - firstPart dev n)
        (copyFromUser user (firstPart dev n) (n - firstPart dev n)) } := by
  have part := @firstPart_le dev n
  have second := user.uncopied_le (firstPart dev n) (n - firstPart dev n)
  rw [overwrite_overwrite (by omega), Nat.add_sub_of_le part, copied, reached, if_pos through]
  congr 1
  apply overwrite_congr
  intro i inside
  simp only [landed, arrived, if_pos through, copyFromUser]
  by_cases before : i < firstPart dev n
  · rw [if_pos before, through, Nat.sub_zero, if_pos before, if_pos (by omega), Nat.zero_add]
  · rw [if_neg before, Nat.add_sub_of_le (Nat.le_of_not_lt before)]
    congr 1
    apply propext
    omega

theorem devWrite_eq (wellFormed : WellFormed dev) : dev.devWrite false user len =
    some (if Complete dev user (min 256 len) then (.ok (min 256 len), (copied dev user (min 256 len)).written (min 256 len))
      else (.error .efault, copied dev user (min 256 len))) := by
  have head := wellFormed.head_lt
  have bounded : min 256 len ≤ 256 := Nat.min_le_left _ _
  simp only [devWrite, Bool.false_eq_true, if_false, ite_lt_eq_min]
  generalize min 256 len = n at bounded ⊢
  by_cases wraps : 256 < dev.head + n
  · have part : firstPart dev n = 256 - dev.head := Nat.min_eq_right (by omega)
    rw [if_pos wraps, copyIn_eq (by omega), ← part]
    simp only [Option.bind_eq_bind, Option.bind_some]
    by_cases first : user.uncopied 0 (firstPart dev n) = 0
    · have start : overwrite (overwrite dev.buffer dev.head (firstPart dev n) (copyFromUser user 0 (firstPart dev n))) 0 =
          overwrite (overwrite dev.buffer dev.head (firstPart dev n) (copyFromUser user 0 (firstPart dev n)))
            (dev.head + firstPart dev n) := by
        funext count entry
        rw [← overwrite_mod, part, Nat.add_sub_of_le (Nat.le_of_lt head)]
        exact (@overwrite_mod _ 256 _ 256 count entry).symm
      rw [if_neg (not_not.mpr first), copyIn_eq (by omega), copied_of_through first bounded]
      simp only [Option.bind_some, Complete, first, start, true_and, ite_not]
      exact (apply_ite some _ _ _).symm
    · rw [if_pos first, copied_of_stopped first, if_neg fun complete : Complete dev user n => first complete.1]
  · have part : firstPart dev n = n := Nat.min_eq_left (by omega)
    rw [if_neg wraps, copyIn_eq (by omega)]
    simp only [Option.bind_eq_bind, Option.bind_some]
    have rest : user.uncopied n 0 = 0 := Nat.le_zero.mp (user.uncopied_le n 0)
    by_cases first : user.uncopied 0 n = 0
    · have complete : Complete dev user n := by
        rw [Complete, part, Nat.sub_self]
        exact ⟨first, rest⟩
      rw [if_neg (not_not.mpr first), if_pos complete, copied_of_through (part.symm ▸ first) bounded, part, Nat.sub_self,
        overwrite_zero]
    · have stopped : user.uncopied 0 (firstPart dev n) ≠ 0 := part.symm ▸ first
      rw [if_pos first, if_neg fun complete : Complete dev user n => stopped complete.1, copied_of_stopped stopped, part]

theorem WellFormed.copied (wellFormed : WellFormed dev) : WellFormed (copied dev user n) where
  tail_lt := wellFormed.tail_lt
  size_le := wellFormed.size_le
  head_eq := wellFormed.head_eq

theorem WellFormed.written (wellFormed : WellFormed dev) : WellFormed (dev.written n) := by
  have head := wellFormed.head_eq
  unfold AdvancedDev.written
  dsimp only
  split
  case isTrue full => exact ⟨Nat.mod_lt _ (by decide), Nat.le_refl 256, by simp⟩
  case isFalse room =>
      refine ⟨wellFormed.tail_lt, Nat.le_of_not_lt room, ?_⟩
      rw [head, Nat.mod_add_mod, Nat.add_assoc]

theorem contents_copied (wellFormed : WellFormed dev) : contents (copied dev user n) =
    cyclic (overwrite dev.buffer (dev.tail + dev.size) (reached dev user n) (landed dev user n)) dev.tail dev.size := by
  rw [contents, Kernel.copied, wellFormed.head_eq, overwrite_mod]

theorem contents_advanced (wellFormed : WellFormed dev) : contents (dev.written n) =
    cyclic dev.buffer (dev.tail + (dev.size + n - 256)) (min (dev.size + n) 256) := by
  unfold AdvancedDev.written
  dsimp only
  by_cases full : 256 < dev.size + n
  · have around : (dev.head + n) % 256 = (dev.tail + (dev.size + n - 256)) % 256 := by
      rw [wellFormed.head_eq]
      omega
    rw [if_pos full, Nat.min_eq_right (Nat.le_of_lt full), contents]
    dsimp only
    rw [around]
    exact @cyclic_mod _ 256 _ dev.buffer _ 256
  · rw [if_neg full, Nat.sub_eq_zero_of_le (Nat.le_of_not_lt full), Nat.min_eq_left (Nat.le_of_not_lt full)]
    rfl

theorem contents_written (wellFormed : WellFormed dev) (complete : Complete dev user n) (bounded : n ≤ 256) :
    contents ((copied dev user n).written n) = (contents dev ++ (List.range n).map user.byte).rtake 256 := by
  have bytes : (List.range n).map (landed dev user n) = (List.range n).map user.byte := by
    apply List.map_congr_left
    intro i member
    exact landed_of_complete complete (List.mem_range.mp member)
  have buffer : (copied dev user n).buffer = overwrite dev.buffer (dev.tail + dev.size) n (landed dev user n) := by
    rw [Kernel.copied, reached, if_pos complete.1, wellFormed.head_eq, overwrite_mod]
  calc contents ((copied dev user n).written n)
      = cyclic (overwrite dev.buffer (dev.tail + dev.size) n (landed dev user n))
          (dev.tail + (dev.size + n - 256)) (min (dev.size + n) 256) := by
        rw [contents_advanced wellFormed.copied, buffer]
        rfl
    _ = (contents dev ++ (List.range n).map user.byte).drop (dev.size + n - 256) := by
        rw [cyclic_overwrite wellFormed.size_le bounded, bytes, contents]
    _ = (contents dev ++ (List.range n).map user.byte).rtake 256 := by
        rw [List.rtake, List.length_append, contents, cyclic_length, List.length_map, List.length_range]

def Mapped (user : UserMemory) (n : Nat) : Prop :=
  ∀ offset m, offset + m ≤ n → m ≤ 2147483647 → user.uncopied offset m = 0

/-- `dev_read` hands over the oldest bytes, as many as there are and are asked for, and keeps the others. -/
def ReadsExactly (dev : AdvancedDev) (len : Nat) : Prop :=
  ∀ user, Mapped user len → ∃ user' dev', dev.devRead false user len = some (.ok (min len dev.size), user', dev') ∧
    (∀ i < min len dev.size, (contents dev)[i]? = some (user'.byte i)) ∧
    (∀ i, min len dev.size ≤ i → user'.byte i = user.byte i) ∧
    contents dev' = (contents dev).drop (min len dev.size)

theorem copyOut_eq {offset source : Nat} (fits : source + n ≤ 256) : dev.copyOut user offset source n =
    some (copyToUser user offset (fun i => dev.buffer (Fin.ofNat 256 (source + i))) n) :=
  if_pos (Nat.le_trans (Nat.add_le_add_left (Nat.sub_le n _) source) fits)

theorem devRead_straight (wellFormed : WellFormed dev) (straight : dev.tail + min len dev.size ≤ 256) :
    ∃ user', dev.devRead false user len = some
      (if user.uncopied 0 (min len dev.size) = 0 then
        (.ok (min len dev.size), user', { dev with
          tail := (dev.tail + min len dev.size) % 256, size := dev.size - min len dev.size })
      else (.error .efault, user', dev)) ∧
      ∀ i, user'.byte i = if i < min len dev.size - user.uncopied 0 (min len dev.size) then
        dev.buffer (Fin.ofNat 256 (dev.tail + i)) else user.byte i := by
  by_cases empty : dev.size = 0
  · have none_ : user.uncopied 0 0 = 0 := Nat.le_zero.mp (user.uncopied_le 0 0)
    have same : { dev with tail := dev.tail % 256, size := 0 } = dev := by
      rw [Nat.mod_eq_of_lt wellFormed.tail_lt, ← empty]
    refine ⟨user, ?_, ?_⟩
    · rw [empty, Nat.min_zero, if_pos none_, Nat.add_zero, Nat.sub_zero, same]
      simp only [devRead, Bool.false_eq_true, if_false, if_pos empty]
    · intro i
      rw [empty, Nat.min_zero, if_neg (by omega)]
  · simp only [devRead, Bool.false_eq_true, if_false, if_neg empty, ite_lt_eq_min, Nat.min_comm dev.size len]
    rw [if_neg (Nat.not_lt.mpr straight), copyOut_eq straight]
    simp only [Option.bind_eq_bind, Option.bind_some, copyToUser, ite_not]
    refine ⟨_, (apply_ite some _ _ _).symm, ?_⟩
    intro i
    simp only [Nat.zero_le, true_and, Nat.zero_add, Nat.sub_zero]

/-- The second part of a read that wraps around is `2 ^ 64` less the first one, and is refused. -/
theorem devRead_wraps (wellFormed : WellFormed dev) (wraps : 256 < dev.tail + min len dev.size) :
    ∃ user', dev.devRead false user len = some (.error .efault, user', dev) := by
  have tail := wellFormed.tail_lt
  have filled : dev.size ≠ 0 := by
    intro empty
    rw [empty, Nat.min_zero] at wraps
    omega
  simp only [devRead, Bool.false_eq_true, if_false, if_neg filled, ite_lt_eq_min, Nat.min_comm dev.size len]
  rw [if_pos wraps, copyOut_eq (by omega)]
  simp only [Option.bind_eq_bind, Option.bind_some, copyToUser]
  by_cases first : user.uncopied 0 (256 - dev.tail) = 0
  · have huge : 2147483647 < (2 ^ 64 - (256 - dev.tail)) % 2 ^ 64 := by
      rw [Nat.mod_eq_of_lt (by omega)]
      omega
    have refused := user.refused (256 - dev.tail) _ huge
    rw [if_neg (not_not.mpr first), copyOut]
    rw [refused, Nat.sub_self, if_pos (Nat.zero_le 256), Option.bind_some, copyToUser, refused]
    rw [if_pos (by omega)]
    exact ⟨_, rfl⟩
  · rw [if_pos first]
    exact ⟨_, rfl⟩

/-! ## Runs -/

theorem WellFormed.taken (wellFormed : WellFormed dev) (few : n ≤ dev.size) :
    WellFormed { dev with tail := (dev.tail + n) % 256, size := dev.size - n } where
  tail_lt := Nat.mod_lt _ (by decide)
  size_le := Nat.le_trans (Nat.sub_le _ _) wellFormed.size_le
  head_eq := by
    have head := wellFormed.head_eq
    dsimp only
    omega

theorem WellFormed.step_write (wellFormed : WellFormed dev) (interrupted : Bool) (user : UserMemory) (len : Nat) :
    ∃ next, step dev (.write interrupted user len) = some next ∧ WellFormed next := by
  cases interrupted with
  | true => exact ⟨dev, rfl, wellFormed⟩
  | false =>
      rw [AdvancedDev.step, devWrite_eq wellFormed]
      split
      · exact ⟨_, rfl, wellFormed.copied.written⟩
      · exact ⟨_, rfl, wellFormed.copied⟩

theorem WellFormed.step_read (wellFormed : WellFormed dev) (interrupted : Bool) (user : UserMemory) (len : Nat) :
    ∃ next, step dev (.read interrupted user len) = some next ∧ WellFormed next := by
  cases interrupted with
  | true => exact ⟨dev, rfl, wellFormed⟩
  | false =>
      rw [AdvancedDev.step]
      by_cases straight : dev.tail + min len dev.size ≤ 256
      · obtain ⟨user', read, -⟩ := @devRead_straight dev user len wellFormed straight
        rw [read]
        split
        · exact ⟨_, rfl, wellFormed.taken (Nat.min_le_right len dev.size)⟩
        · exact ⟨dev, rfl, wellFormed⟩
      · obtain ⟨user', read⟩ := @devRead_wraps dev user len wellFormed (Nat.lt_of_not_le straight)
        rw [read]
        exact ⟨dev, rfl, wellFormed⟩

theorem WellFormed.devIoctl (wellFormed : WellFormed dev) (interrupted : Bool) (cmd : UInt32) (arg : UserMemory) :
    WellFormed (dev.devIoctl interrupted cmd arg).2.2 := by
  unfold AdvancedDev.devIoctl
  dsimp only
  split_ifs
  · exact wellFormed
  · exact new_wellFormed
  all_goals exact wellFormed

theorem WellFormed.deviceSetLlseek (wellFormed : WellFormed dev) (interrupted : Bool) (offset whence : Int) :
    WellFormed (dev.deviceSetLlseek interrupted offset whence).2 := by
  unfold AdvancedDev.deviceSetLlseek
  split_ifs
  · exact wellFormed
  · exact new_wellFormed
  · exact wellFormed

theorem WellFormed.step (wellFormed : WellFormed dev) (call : Call) :
    ∃ next, step dev call = some next ∧ WellFormed next := by
  cases call with
  | write interrupted user len => exact wellFormed.step_write interrupted user len
  | read interrupted user len => exact wellFormed.step_read interrupted user len
  | ioctl interrupted cmd arg => exact ⟨_, rfl, wellFormed.devIoctl interrupted cmd arg⟩
  | llseek interrupted offset whence => exact ⟨_, rfl, wellFormed.deviceSetLlseek interrupted offset whence⟩

theorem run_keeps_wellFormed (calls : List Call) : ∃ dev, Trace.run step {} calls = some dev ∧ WellFormed dev :=
  Trace.run_total (fun _ call wellFormed => wellFormed.step call) new_wellFormed calls

def mapped (limit : Nat) (byte : Nat → UInt8) : UserMemory where
  byte
  uncopied offset n := if 2147483647 < n then n else min n (offset + n - limit)
  uncopied_le offset n := by
    split
    · exact Nat.le_refl n
    · exact Nat.min_le_left _ _
  refused _ _ huge := if_pos huge

theorem mapped_mapped (limit : Nat) (byte : Nat → UInt8) : Mapped (mapped limit byte) limit := by
  intro offset m inside small
  rw [mapped]
  dsimp only
  rw [if_neg (Nat.not_lt.mpr small), Nat.sub_eq_zero_of_le inside, Nat.min_zero]

theorem readsExactly_iff (wellFormed : WellFormed dev) :
    ReadsExactly dev len ↔ dev.tail + min len dev.size ≤ 256 := by
  constructor
  · intro exact_
    by_contra wraps
    obtain ⟨_, _, read, -⟩ := exact_ (mapped len fun _ => 0) (mapped_mapped len _)
    obtain ⟨_, fault⟩ := @devRead_wraps dev (mapped len fun _ => 0) len wellFormed (Nat.lt_of_not_le wraps)
    rw [fault] at read
    cases read
  · intro straight user valid
    have bounded : min len dev.size ≤ 2147483647 :=
      Nat.le_trans (Nat.min_le_right _ _) (Nat.le_trans wellFormed.size_le (by decide))
    have whole : user.uncopied 0 (min len dev.size) = 0 :=
      valid 0 _ (Nat.zero_add _ ▸ Nat.min_le_left _ _) bounded
    obtain ⟨user', read, bytes⟩ := @devRead_straight dev user len wellFormed straight
    rw [if_pos whole] at read
    rw [whole, Nat.sub_zero] at bytes
    refine ⟨user', _, read, ?_, ?_, ?_⟩
    · intro i inside
      have there : i < dev.size := Nat.lt_of_lt_of_le inside (Nat.min_le_right _ _)
      rw [bytes, if_pos inside, contents, List.getElem?_eq_getElem (by simpa using there), cyclic_getElem]
    · intro i outside
      rw [bytes, if_neg (Nat.not_lt.mpr outside)]
    · rw [contents, contents, cyclic_drop (Nat.min_le_right _ _)]
      exact @cyclic_mod _ 256 _ dev.buffer _ _

theorem run_reads_exactly_iff (calls : List Call) : ∃ dev, Trace.run step {} calls = some dev ∧
    ∀ len, ReadsExactly dev len ↔ dev.tail + min len dev.size ≤ 256 := by
  obtain ⟨dev, ran, wellFormed⟩ := run_keeps_wellFormed calls
  exact ⟨dev, ran, fun len => readsExactly_iff wellFormed⟩

theorem wrapped_read_fails : ¬ ∀ calls, ∃ dev, Trace.run step {} calls = some dev ∧ ∀ len, ReadsExactly dev len := by
  intro exact_
  let memory := mapped 255 fun _ => 65
  obtain ⟨dev, ran, exact_⟩ := exact_ [.write false memory 255, .read false memory 255, .write false memory 2]
  have state : (Trace.run step {} [.write false memory 255, .read false memory 255, .write false memory 2]).map
      (fun dev => (dev.tail, dev.size)) = some (255, 2) := by decide
  obtain ⟨_, again, wellFormed⟩ := run_keeps_wellFormed [.write false memory 255, .read false memory 255, .write false memory 2]
  rw [ran] at again state
  obtain rfl := Option.some.inj again
  obtain ⟨tail, size⟩ := Prod.mk.inj (Option.some.inj state)
  have straight := (readsExactly_iff wellFormed).mp (exact_ 2)
  rw [tail, size] at straight
  exact absurd straight (by decide)

theorem run_writes_latest (calls : List Call) : ∃ dev, Trace.run step {} calls = some dev ∧
    dev.head = (dev.tail + dev.size) % 256 ∧ dev.size ≤ 256 ∧
    ∀ user len, Complete dev user (min 256 len) → ∃ dev',
      dev.devWrite false user len = some (.ok (min 256 len), dev') ∧
      contents dev' = (contents dev ++ (List.range (min 256 len)).map user.byte).rtake 256 := by
  obtain ⟨dev, ran, wellFormed⟩ := run_keeps_wellFormed calls
  refine ⟨dev, ran, wellFormed.head_eq, wellFormed.size_le, ?_⟩
  intro user len complete
  refine ⟨_, ?_, contents_written wellFormed complete (Nat.min_le_left _ _)⟩
  rw [devWrite_eq wellFormed, if_pos complete]

theorem run_writes_latest_two :
    ∃ dev dev', Trace.run step {} [.write false (mapped 255 fun _ => 65) 255] = some dev ∧
      dev.devWrite false (mapped 2 fun _ => 66) 2 = some (.ok 2, dev') ∧
      contents dev' = (contents dev ++ [66, 66]).rtake 256 := by
  obtain ⟨dev, ran, _, _, writes⟩ := run_writes_latest [.write false (mapped 255 fun _ => 65) 255]
  have complete : Complete dev (mapped 2 fun _ => 66) 2 := by
    have first : firstPart dev 2 ≤ 2 := Nat.min_le_left _ _
    simp only [Complete, mapped]
    constructor
    · rw [if_neg (by omega)]
      omega
    · rw [if_neg (by omega)]
      omega
  obtain ⟨dev', wrote, latest⟩ := writes (mapped 2 fun _ => 66) 2 complete
  exact ⟨dev, dev', ran, wrote, latest⟩

/-! ## Writes that fail -/

def Preserves (dev : AdvancedDev) (user : UserMemory) (len : Nat) : Prop :=
  ∀ interrupted dev', dev.devWrite interrupted user len = some (.error .efault, dev') → contents dev' = contents dev

/-- Every place that the copies reach and that is not free gets the byte it has. -/
def Rewrites (dev : AdvancedDev) (user : UserMemory) (n : Nat) : Prop :=
  ∀ i < reached dev user n, 256 ≤ dev.size + i → (contents dev)[dev.size + i - 256]? = some (landed dev user n i)

theorem preserves_iff (wellFormed : WellFormed dev) :
    Preserves dev user len ↔ Complete dev user (min 256 len) ∨ Rewrites dev user (min 256 len) := by
  have bounded : reached dev user (min 256 len) ≤ 256 := Nat.le_trans reached_le (Nat.min_le_left _ _)
  have same := @cyclic_overwrite_eq_iff _ 256 _ dev.buffer dev.tail dev.size _ (landed dev user (min 256 len))
    wellFormed.size_le bounded
  constructor
  · intro preserves
    by_cases complete : Complete dev user (min 256 len)
    · exact Or.inl complete
    · have failed := @devWrite_eq dev user len wellFormed
      rw [if_neg complete] at failed
      have kept := preserves false _ failed
      rw [contents_copied wellFormed] at kept
      exact Or.inr (same.mp kept)
  · intro either interrupted dev' failed
    cases interrupted with
    | true => cases failed
    | false =>
        rw [devWrite_eq wellFormed] at failed
        split at failed
        case isTrue => cases failed
        case isFalse incomplete =>
            obtain ⟨-, rfl⟩ := Prod.mk.inj (Option.some.inj failed)
            rw [contents_copied wellFormed]
            exact same.mpr (either.resolve_left incomplete)

theorem mapped_uncopied {limit offset : Nat} {byte : Nat → UInt8} (small : n ≤ 256) :
    (mapped limit byte).uncopied offset n = min n (offset + n - limit) :=
  if_neg (by omega)

theorem mapped_fails (positive : 0 < n) (bounded : n ≤ 256) (byte : Nat → UInt8) :
    ¬ Complete dev (mapped (n - 1) byte) n ∧ reached dev (mapped (n - 1) byte) n = n ∧
      arrived dev (mapped (n - 1) byte) n = n - 1 := by
  have part := @firstPart_le dev n
  have first := @mapped_uncopied _ (n - 1) 0 byte (Nat.le_trans part bounded)
  have second := @mapped_uncopied _ (n - 1) (firstPart dev n) byte (Nat.le_trans (Nat.sub_le n (firstPart dev n)) bounded)
  unfold Complete reached arrived
  rw [first, second]
  refine ⟨?_, ?_, ?_⟩
  · omega
  · split <;> omega
  · split <;> omega

theorem preserves_all_iff (wellFormed : WellFormed dev) : (∀ user, Preserves dev user len) ↔
    dev.size + min 256 len ≤ 256 ∨ dev.size + min 256 len = 257 ∧ (contents dev)[0]? = some 0 := by
  have bounded : min 256 len ≤ 256 := Nat.min_le_left _ _
  have size := wellFormed.size_le
  simp only [preserves_iff wellFormed]
  generalize min 256 len = n at bounded ⊢
  constructor
  · intro preserves
    by_contra neither
    obtain ⟨full, oldest⟩ := not_or.mp neither
    have rewrites : ∀ byte, (contents dev)[0]? = some (if 256 - dev.size < n - 1 then byte else 0) := by
      intro byte
      obtain ⟨incomplete, reached_, arrived_⟩ :=
        mapped_fails (n := n) (by omega) bounded (fun _ => byte)
      have rewritten := (preserves (mapped (n - 1) fun _ => byte)).resolve_left incomplete (256 - dev.size)
      rw [reached_, landed, arrived_, Nat.add_sub_of_le size, Nat.sub_self] at rewritten
      exact rewritten (by omega) (Nat.le_refl 256)
    by_cases inner : 256 - dev.size < n - 1
    · have zero := rewrites 0
      have one := rewrites 1
      rw [if_pos inner] at zero one
      rw [zero] at one
      cases one
    · have zero := rewrites 0
      rw [if_neg inner] at zero
      exact oldest ⟨by omega, zero⟩
  · intro room user
    by_cases complete : Complete dev user n
    · exact Or.inl complete
    · apply Or.inr
      intro i inside unread
      have within := @reached_le dev user n
      have last := arrived_lt complete
      rcases room with room | ⟨room, oldest⟩
      · omega
      · rw [show dev.size + i - 256 = 0 by omega, oldest, landed, if_neg (by omega)]

theorem run_preserves_iff (calls : List Call) : ∃ dev, Trace.run step {} calls = some dev ∧
    (∀ user len, Preserves dev user len ↔ Complete dev user (min 256 len) ∨ Rewrites dev user (min 256 len)) ∧
    ∀ len, (∀ user, Preserves dev user len) ↔
      dev.size + min 256 len ≤ 256 ∨ dev.size + min 256 len = 257 ∧ (contents dev)[0]? = some 0 := by
  obtain ⟨dev, ran, wellFormed⟩ := run_keeps_wellFormed calls
  exact ⟨dev, ran, fun user len => preserves_iff wellFormed, fun len => preserves_all_iff wellFormed⟩

/-- The buffer is full, and the write of two bytes copies one of them. -/
theorem failed_write_overwrites : ¬ ∀ calls, ∃ dev, Trace.run step {} calls = some dev ∧
    ∀ user len, Preserves dev user len := by
  intro preserves
  obtain ⟨dev, ran, preserves⟩ := preserves [.write false (mapped 256 fun _ => 65) 256]
  have state : (Trace.run step {} [.write false (mapped 256 fun _ => 65) 256]).map
      (fun dev => (dev.size, (contents dev)[0]?)) = some (256, some 65) := by decide
  obtain ⟨_, again, wellFormed⟩ := run_keeps_wellFormed [.write false (mapped 256 fun _ => 65) 256]
  rw [ran] at again state
  obtain rfl := Option.some.inj again
  obtain ⟨size, oldest⟩ := Prod.mk.inj (Option.some.inj state)
  rcases (preserves_all_iff wellFormed).mp fun user => preserves user 2 with room | ⟨room, zero⟩
  · omega
  · omega

end KnowledgeAcquisition.Proof.Kernel
