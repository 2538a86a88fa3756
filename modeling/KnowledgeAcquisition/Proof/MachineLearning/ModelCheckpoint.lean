import KnowledgeAcquisition.MachineLearning.ModelCheckpoint

/-!
# Saving and loading

A file is walked through from one entry to the next one. What `load` does with an entry is compared with what the
file has there, and a saved map is a file whose entries are the ones of the map.
-/

namespace KnowledgeAcquisition.Proof.MachineLearning
open KnowledgeAcquisition.MachineLearning Library

variable {file : List UInt8} {dict : StateDict} {memory p n : Nat}

theorem bytesOf_cons (bits : UInt32) (data : List UInt32) :
    bytesOf (bits :: data) = littleEndian 4 bits.toNat ++ bytesOf data := List.flatMap_cons

@[simp] theorem bytesOf_length (data : List UInt32) : (bytesOf data).length = data.length * 4 := by
  induction data with
  | nil => rfl
  | cons bits data ih =>
      rw [bytesOf_cons, List.length_append, ih, littleEndian_length, List.length_cons, Nat.succ_mul, Nat.add_comm]

theorem floatsOf_littleEndian_append (bits : UInt32) (bytes : List UInt8) :
    floatsOf (littleEndian 4 bits.toNat ++ bytes) = bits :: floatsOf bytes := by
  have value : UInt32.ofNat (ofLittleEndian (littleEndian 4 bits.toNat)) = bits := by
    have fits : bits.toNat < 256 ^ 4 := bits.toNat_lt
    rw [ofLittleEndian_littleEndian, Nat.mod_eq_of_lt fits, UInt32.ofNat_toNat]
  calc floatsOf (littleEndian 4 bits.toNat ++ bytes)
      = UInt32.ofNat (ofLittleEndian (littleEndian 4 bits.toNat)) :: floatsOf bytes := rfl
    _ = bits :: floatsOf bytes := by rw [value]

theorem floatsOf_bytesOf (data : List UInt32) : floatsOf (bytesOf data) = data := by
  induction data with
  | nil => rfl
  | cons bits data ih => rw [bytesOf_cons, floatsOf_littleEndian_append, ih]

theorem floatsOf_length (bytes : List UInt8) : (floatsOf bytes).length = bytes.length / 4 := by
  induction bytes using floatsOf.induct with
  | case1 a b c d rest ih =>
      simp only [floatsOf, List.length_cons, ih]
      omega
  | case2 bytes short =>
      rw [floatsOf.eq_2 bytes short]
      rcases bytes with _ | ⟨a, _ | ⟨b, _ | ⟨c, _ | ⟨d, rest⟩⟩⟩⟩
      · rfl
      · simp only [List.length_cons, List.length_nil, Nat.reduceAdd, Nat.reduceDiv]
      · simp only [List.length_cons, List.length_nil, Nat.reduceAdd, Nat.reduceDiv]
      · simp only [List.length_cons, List.length_nil, Nat.reduceAdd, Nat.reduceDiv]
      · exact absurd rfl (short a b c d rest)

theorem taken_length (inside : p + n ≤ file.length) : ((file.drop p).take n).length = n := by
  rw [List.length_take, List.length_drop]
  omega

theorem taken_length_ne (start : p < file.length ∨ 0 < n) (outside : file.length < p + n) :
    ((file.drop p).take n).length ≠ n := by
  rw [List.length_take, List.length_drop]
  omega

theorem read_complete (inside : p + n ≤ file.length) :
    (IStream.mk file (some p)).read n = ((file.drop p).take n, ⟨file, some (p + n)⟩) := by
  simp only [IStream.read, taken_length inside, if_true]

theorem read_incomplete (start : p < file.length ∨ 0 < n) (outside : file.length < p + n) :
    (IStream.mk file (some p)).read n = ((file.drop p).take n, ⟨file, none⟩) := by
  simp only [IStream.read, taken_length_ne start outside, if_false]

def sizeTAt (file : List UInt8) (p : Nat) : Option Nat :=
  if p + 8 ≤ file.length then some (ofLittleEndian ((file.drop p).take 8)) else none

theorem sizeTAt_inside (found : sizeTAt file p = some n) : p + 8 ≤ file.length := by
  unfold sizeTAt at found
  split at found
  · assumption
  · cases found

theorem readSizeT_eq : (IStream.mk file (some p)).readSizeT =
    (sizeTAt file p, ⟨file, (sizeTAt file p).map fun _ => p + 8⟩) := by
  by_cases inside : p + 8 ≤ file.length
  · rw [IStream.readSizeT, read_complete inside]
    simp only [taken_length inside, if_true, sizeTAt, inside, Option.map_some]
  · have outside := Nat.lt_of_not_le inside
    have start : p < file.length ∨ 0 < 8 := Or.inr (Nat.zero_lt_succ 7)
    rw [IStream.readSizeT, read_incomplete start outside]
    simp only [taken_length_ne start outside, if_false, sizeTAt, inside, Option.map_none]

theorem readSizeT_some (found : sizeTAt file p = some n) :
    (IStream.mk file (some p)).readSizeT = (some n, ⟨file, some (p + 8)⟩) := by
  rw [readSizeT_eq, found]
  rfl

theorem readSizeT_none (missing : sizeTAt file p = none) :
    (IStream.mk file (some p)).readSizeT = (none, ⟨file, none⟩) := by
  rw [readSizeT_eq, missing]
  rfl

structure Entry where
  name : Name
  rows : Nat
  cols : Nat
  start : Nat

def entryAt (file : List UInt8) (p : Nat) : Option Entry := do
  let nameLen ← sizeTAt file p
  let rows ← sizeTAt file (p + 8 + nameLen)
  let cols ← sizeTAt file (p + 8 + nameLen + 8)
  some { name := (file.drop (p + 8)).take nameLen, rows, cols, start := p + 8 + nameLen + 8 + 8 }

def Entry.next (file : List UInt8) (entry : Entry) : Option Nat :=
  ((IStream.mk file (some entry.start)).seekg (sizeT (entry.rows * entry.cols * 4))).position

/-- Where `load` gets to as it goes over the entries. -/
inductive Walk (file : List UInt8) : Option Nat → List Entry → Option Nat → Prop where
  | nil (position : Option Nat) : Walk file position [] position
  | cons {p : Nat} {entry : Entry} {entries : List Entry} {last : Option Nat} :
      entryAt file p = some entry → Walk file (entry.next file) entries last →
        Walk file (some p) (entry :: entries) last

def Entry.Complete (file : List UInt8) (dict : StateDict) (entry : Entry) : Prop :=
  ∀ tensor, dict.find? entry.name = some tensor →
    entry.rows = tensor.rows ∧ entry.cols = tensor.cols ∧ entry.start + tensor.data.length * 4 ≤ file.length

def Entry.Fits (memory : Nat) (file : List UInt8) (dict : StateDict) (entry : Entry) : Prop :=
  entry.name.length ≤ memory ∧ entry.Complete file dict

def Entry.data (file : List UInt8) (entry : Entry) (size : Nat) : List UInt32 :=
  floatsOf ((file.drop entry.start).take (size * 4))

def Entry.restore (file : List UInt8) (dict : StateDict) (entry : Entry) : StateDict :=
  match dict.find? entry.name with
  | none => dict
  | some tensor => dict.assign entry.name { tensor with data := entry.data file tensor.data.length }

inductive Stops (memory : Nat) (file : List UInt8) (dict : StateDict) (p : Nat) : Prop where
  | name {nameLen : Nat} : sizeTAt file p = some nameLen → memory < nameLen → Stops memory file dict p
  | rows {nameLen rows : Nat} {tensor : Parameter} : sizeTAt file p = some nameLen → nameLen ≤ memory →
      dict.find? ((file.drop (p + 8)).take nameLen) = some tensor → sizeTAt file (p + 8 + nameLen) = some rows →
        rows ≠ tensor.rows → Stops memory file dict p
  | cols {nameLen cols : Nat} {tensor : Parameter} : sizeTAt file p = some nameLen → nameLen ≤ memory →
      dict.find? ((file.drop (p + 8)).take nameLen) = some tensor →
        sizeTAt file (p + 8 + nameLen) = some tensor.rows → sizeTAt file (p + 8 + nameLen + 8) = some cols →
          cols ≠ tensor.cols → Stops memory file dict p

def Constructed (tensor : Parameter) : Prop :=
  tensor.data.length = sizeT (tensor.rows * tensor.cols) ∧ tensor.data.length ≤ maxSize

theorem Constructed.size_eq {tensor : Parameter} (constructed : Constructed tensor) :
    sizeT (tensor.rows * tensor.cols * 4) = tensor.data.length * 4 ∧ tensor.data.length * 4 < 2 ^ 63 := by
  obtain ⟨length, bounded⟩ := constructed
  unfold maxSize at bounded
  unfold sizeT at length ⊢
  omega

theorem seekg_forward {off : Nat} (small : off < 2 ^ 63) :
    (IStream.mk file (some p)).seekg off = ⟨file, some (p + off)⟩ := by
  have forward : ¬ ((p : Int) + off < 0) := by omega
  simp only [IStream.seekg, small, if_true, forward, if_false]
  rfl

theorem Entry.next_eq {entry : Entry} {tensor : Parameter} (constructed : Constructed tensor)
    (rows : entry.rows = tensor.rows) (cols : entry.cols = tensor.cols) :
    entry.next file = some (entry.start + tensor.data.length * 4) := by
  rw [Entry.next, rows, cols, constructed.size_eq.1, seekg_forward constructed.size_eq.2]

theorem entryAt_of {nameLen rows cols : Nat} (name : sizeTAt file p = some nameLen)
    (rowsRead : sizeTAt file (p + 8 + nameLen) = some rows)
    (colsRead : sizeTAt file (p + 8 + nameLen + 8) = some cols) :
    entryAt file p =
      some { name := (file.drop (p + 8)).take nameLen, rows, cols, start := p + 8 + nameLen + 8 + 8 } := by
  refine Option.bind_eq_some_iff.mpr ⟨nameLen, name, ?_⟩
  refine Option.bind_eq_some_iff.mpr ⟨rows, rowsRead, ?_⟩
  exact Option.bind_eq_some_iff.mpr ⟨cols, colsRead, rfl⟩

theorem entryAt_reads {entry : Entry} (found : entryAt file p = some entry) :
    ∃ nameLen, sizeTAt file p = some nameLen ∧ sizeTAt file (p + 8 + nameLen) = some entry.rows ∧
      sizeTAt file (p + 8 + nameLen + 8) = some entry.cols ∧ entry.name = (file.drop (p + 8)).take nameLen ∧
        entry.start = p + 8 + nameLen + 8 + 8 := by
  obtain ⟨nameLen, name, found⟩ := Option.bind_eq_some_iff.mp found
  obtain ⟨rows, rowsRead, found⟩ := Option.bind_eq_some_iff.mp found
  obtain ⟨cols, colsRead, found⟩ := Option.bind_eq_some_iff.mp found
  cases found
  exact ⟨nameLen, name, rowsRead, colsRead, rfl, rfl⟩

/-! ## An iteration of the loop -/

section Iteration
open ModelCheckpoint

variable {nameLen rows cols : Nat} {tensor : Parameter}

theorem readBinary_missing_rows (missing : sizeTAt file p = none) :
    tensor.readBinary ⟨file, some p⟩ = none := by
  rw [Tensor2D.readBinary, readSizeT_none missing]
  rfl

theorem readBinary_wrong_rows (found : sizeTAt file p = some rows) (wrong : rows ≠ tensor.rows) :
    ∃ is, tensor.readBinary ⟨file, some p⟩ = some (.threw, is, tensor) := by
  rw [Tensor2D.readBinary, readSizeT_some found]
  exact ⟨_, if_pos wrong⟩

theorem readBinary_missing_cols (found : sizeTAt file p = some tensor.rows) (missing : sizeTAt file (p + 8) = none) :
    tensor.readBinary ⟨file, some p⟩ = none := by
  rw [Tensor2D.readBinary, readSizeT_some found]
  simp only [readSizeT_none missing]
  exact if_neg (not_not.mpr rfl)

theorem readBinary_wrong_cols (found : sizeTAt file p = some tensor.rows) (next : sizeTAt file (p + 8) = some cols)
    (wrong : cols ≠ tensor.cols) : ∃ is, tensor.readBinary ⟨file, some p⟩ = some (.threw, is, tensor) := by
  rw [Tensor2D.readBinary, readSizeT_some found]
  simp only [readSizeT_some next]
  exact ⟨_, (if_neg (not_not.mpr rfl)).trans (if_pos wrong)⟩

theorem readBinary_data (found : sizeTAt file p = some tensor.rows) (next : sizeTAt file (p + 8) = some tensor.cols) :
    tensor.readBinary ⟨file, some p⟩ =
      let read := (IStream.mk file (some (p + 8 + 8))).read (sizeT (tensor.data.length * 4))
      some (.returned, read.2, { tensor with data := floatsOf (overlay read.1 (bytesOf tensor.data)) }) := by
  rw [Tensor2D.readBinary, readSizeT_some found]
  simp only [readSizeT_some next]
  exact (if_neg (not_not.mpr rfl)).trans (if_neg (not_not.mpr rfl))

theorem loadEntry_missing (missing : sizeTAt file p = none) : loadEntry memory ⟨file, some p⟩ dict = none := by
  rw [loadEntry, readSizeT_none missing]
  rfl

theorem loadEntry_long (found : sizeTAt file p = some nameLen) (long : memory < nameLen) :
    ∃ is, loadEntry memory ⟨file, some p⟩ dict = some (.threw, is, dict) := by
  rw [loadEntry, readSizeT_some found]
  exact ⟨_, if_pos long⟩

theorem loadEntry_incomplete (found : sizeTAt file p = some nameLen) (short : nameLen ≤ memory)
    (outside : file.length < p + 8 + nameLen) : loadEntry memory ⟨file, some p⟩ dict = none := by
  have start : p + 8 < file.length ∨ 0 < nameLen := by
    have inside := sizeTAt_inside found
    omega
  rw [loadEntry, readSizeT_some found]
  simp only [Option.bind_eq_bind, Option.bind_some, Nat.not_lt.mpr short, if_false, read_incomplete start outside]
  split
  · rfl
  · rfl

theorem loadEntry_known (found : sizeTAt file p = some nameLen) (short : nameLen ≤ memory)
    (inside : p + 8 + nameLen ≤ file.length) (known : dict.find? ((file.drop (p + 8)).take nameLen) = some tensor) :
    loadEntry memory ⟨file, some p⟩ dict =
      (tensor.readBinary ⟨file, some (p + 8 + nameLen)⟩).map fun read =>
        (read.1, read.2.1, dict.assign ((file.drop (p + 8)).take nameLen) read.2.2) := by
  have full : ((file.drop (p + 8)).take nameLen).length = (List.replicate nameLen (32 : UInt8)).length := by
    rw [taken_length inside, List.length_replicate]
  rw [loadEntry, readSizeT_some found]
  simp only [Option.bind_eq_bind, Option.bind_some, Nat.not_lt.mpr short, if_false, read_complete inside,
    overlay_of_length_eq full, known]
  cases tensor.readBinary ⟨file, some (p + 8 + nameLen)⟩ with
  | none => rfl
  | some read => rfl

theorem loadEntry_unknown (found : sizeTAt file p = some nameLen) (short : nameLen ≤ memory)
    (inside : p + 8 + nameLen ≤ file.length) (unknown : dict.find? ((file.drop (p + 8)).take nameLen) = none) :
    loadEntry memory ⟨file, some p⟩ dict =
      (sizeTAt file (p + 8 + nameLen)).bind fun rows => (sizeTAt file (p + 8 + nameLen + 8)).map fun cols =>
        (.returned, (IStream.mk file (some (p + 8 + nameLen + 8 + 8))).seekg (sizeT (rows * cols * 4)), dict) := by
  have full : ((file.drop (p + 8)).take nameLen).length = (List.replicate nameLen (32 : UInt8)).length := by
    rw [taken_length inside, List.length_replicate]
  rw [loadEntry, readSizeT_some found]
  simp only [Option.bind_eq_bind, Option.bind_some, Nat.not_lt.mpr short, if_false, read_complete inside,
    overlay_of_length_eq full, unknown]
  cases rows : sizeTAt file (p + 8 + nameLen) with
  | none =>
      rw [readSizeT_none rows]
      rfl
  | some rows' =>
      rw [readSizeT_some rows]
      cases cols : sizeTAt file (p + 8 + nameLen + 8) with
      | none =>
          simp only [readSizeT_none cols]
          rfl
      | some cols' =>
          simp only [readSizeT_some cols]
          rfl

def shape (tensor : Parameter) : Nat × Nat × Nat × Bool :=
  (tensor.rows, tensor.cols, tensor.data.length, tensor.isTransposed)

def Alike (dict dict' : StateDict) : Prop := ∀ name, (dict'.find? name).map shape = (dict.find? name).map shape

def AllConstructed (dict : StateDict) : Prop := ∀ name tensor, dict.find? name = some tensor → Constructed tensor

variable {dict' : StateDict} {entry : Entry}

theorem Alike.find? (alike : Alike dict dict') {name : Name} (found : dict'.find? name = some tensor) :
    ∃ before, dict.find? name = some before ∧ before.rows = tensor.rows ∧ before.cols = tensor.cols ∧
      before.data.length = tensor.data.length := by
  have same := alike name
  rw [found, Option.map_some] at same
  obtain ⟨before, here, shapes⟩ := Option.map_eq_some_iff.mp same.symm
  simp only [shape, Prod.mk.injEq] at shapes
  exact ⟨before, here, shapes.1, shapes.2.1, shapes.2.2.1⟩

theorem Alike.symm (alike : Alike dict dict') : Alike dict' dict := fun name => (alike name).symm

theorem Alike.complete (alike : Alike dict dict') (complete : entry.Complete file dict) :
    entry.Complete file dict' := by
  intro tensor found
  obtain ⟨before, here, rows, cols, length⟩ := alike.find? found
  rw [← rows, ← cols, ← length]
  exact complete before here

theorem Alike.constructed (alike : Alike dict dict') (constructed : AllConstructed dict) : AllConstructed dict' := by
  intro name tensor found
  obtain ⟨before, here, rows, cols, length⟩ := alike.find? found
  unfold Constructed
  rw [← rows, ← cols, ← length]
  exact constructed name before here

theorem Alike.stops (alike : Alike dict dict') (stops : Stops memory file dict' p) : Stops memory file dict p := by
  cases stops with
  | name found long => exact .name found long
  | rows found short known rows wrong =>
      obtain ⟨before, here, same, _⟩ := alike.find? known
      exact .rows found short here rows (same ▸ wrong)
  | cols found short known rows cols wrong =>
      obtain ⟨before, here, same, same', _⟩ := alike.find? known
      exact .cols found short here (same ▸ rows) cols (same' ▸ wrong)

theorem data_length {size : Nat} (inside : entry.start + size * 4 ≤ file.length) :
    (entry.data file size).length = size := by
  rw [Entry.data, floatsOf_length, taken_length inside, Nat.mul_div_cancel size (Nat.zero_lt_succ 3)]

theorem restore_alike (complete : entry.Complete file dict) : Alike dict (entry.restore file dict) := by
  intro name
  unfold Entry.restore
  cases found : dict.find? entry.name with
  | none => rfl
  | some tensor =>
      simp only [OrderedMap.find?_assign]
      split
      · rename_i here
        have length := data_length (complete tensor found).2.2
        rw [here, found, Option.map_some, Option.map_some, shape, length]
        rfl
      · rfl

theorem loadEntry_of_fits (constructed : AllConstructed dict) (found : entryAt file p = some entry)
    (fits : entry.Fits memory file dict) :
    loadEntry memory ⟨file, some p⟩ dict = some (.returned, ⟨file, entry.next file⟩, entry.restore file dict) := by
  obtain ⟨nameLen, name, rows, cols, named, start⟩ := entryAt_reads found
  have rowsInside := sizeTAt_inside rows
  have inside : p + 8 + nameLen ≤ file.length := by omega
  have short : nameLen ≤ memory := by
    have length := fits.1
    rwa [named, taken_length inside] at length
  unfold Entry.restore
  rw [named]
  cases known : dict.find? ((file.drop (p + 8)).take nameLen) with
  | none =>
      rw [loadEntry_unknown name short inside known, rows, Option.bind_some, cols, Option.map_some, ← start]
      rfl
  | some tensor =>
      obtain ⟨sameRows, sameCols, complete⟩ := fits.2 tensor (named ▸ known)
      have size := (constructed _ tensor known).size_eq.2
      have exact : sizeT (tensor.data.length * 4) = tensor.data.length * 4 := Nat.mod_eq_of_lt (by omega)
      have full : ((file.drop entry.start).take (tensor.data.length * 4)).length = (bytesOf tensor.data).length := by
        rw [taken_length complete, bytesOf_length]
      rw [loadEntry_known name short inside known, readBinary_data (sameRows ▸ rows) (sameCols ▸ cols), exact, ← start,
        read_complete complete]
      simp only [overlay_of_length_eq full, Option.map_some, Entry.next_eq (constructed _ tensor known) sameRows sameCols]
      rfl

theorem loadEntry_of_stops (stops : Stops memory file dict p) :
    ∃ is, loadEntry memory ⟨file, some p⟩ dict = some (.threw, is, dict) := by
  cases stops with
  | name found long => exact loadEntry_long found long
  | rows found short known rows wrong =>
      have inside := sizeTAt_inside rows
      obtain ⟨is, read⟩ := readBinary_wrong_rows rows wrong
      refine ⟨is, ?_⟩
      rw [loadEntry_known found short (by omega) known, read, Option.map_some, OrderedMap.assign_self _ known]
  | cols found short known rows cols wrong =>
      have inside := sizeTAt_inside rows
      obtain ⟨is, read⟩ := readBinary_wrong_cols rows cols wrong
      refine ⟨is, ?_⟩
      rw [loadEntry_known found short (by omega) known, read, Option.map_some, OrderedMap.assign_self _ known]

theorem readBinary_cases {read : Outcome × IStream × Parameter} (constructed : Constructed tensor)
    (ran : tensor.readBinary ⟨file, some p⟩ = some read) :
    (∃ rows, sizeTAt file p = some rows ∧ rows ≠ tensor.rows) ∨
      (∃ cols, sizeTAt file p = some tensor.rows ∧ sizeTAt file (p + 8) = some cols ∧ cols ≠ tensor.cols) ∨
        sizeTAt file p = some tensor.rows ∧ sizeTAt file (p + 8) = some tensor.cols ∧
          (p + 8 + 8 + tensor.data.length * 4 ≤ file.length ∨ read.1 = .returned ∧ read.2.1 = ⟨file, none⟩) := by
  cases rowsRead : sizeTAt file p with
  | none =>
      rw [readBinary_missing_rows rowsRead] at ran
      cases ran
  | some rows =>
      by_cases sameRows : rows = tensor.rows
      · subst sameRows
        cases colsRead : sizeTAt file (p + 8) with
        | none =>
            rw [readBinary_missing_cols rowsRead colsRead] at ran
            cases ran
        | some cols =>
            by_cases sameCols : cols = tensor.cols
            · subst sameCols
              refine Or.inr (Or.inr ⟨rfl, rfl, ?_⟩)
              by_cases complete : p + 8 + 8 + tensor.data.length * 4 ≤ file.length
              · exact Or.inl complete
              · right
                have incomplete := Nat.lt_of_not_le complete
                have below := sizeTAt_inside colsRead
                have size := constructed.size_eq.2
                have exact : sizeT (tensor.data.length * 4) = tensor.data.length * 4 := Nat.mod_eq_of_lt (by omega)
                rw [readBinary_data rowsRead colsRead, exact, read_incomplete (by omega) incomplete] at ran
                cases ran
                exact ⟨rfl, rfl⟩
            · exact Or.inr (Or.inl ⟨cols, rfl, rfl, sameCols⟩)
      · exact Or.inl ⟨rows, rfl, sameRows⟩

theorem loadEntry_cases {outcome : Outcome} {is : IStream} (constructed : AllConstructed dict)
    (ran : loadEntry memory ⟨file, some p⟩ dict = some (outcome, is, dict')) :
    Stops memory file dict p ∨ ∃ entry, entryAt file p = some entry ∧ entry.name.length ≤ memory ∧
      (entry.Complete file dict ∨ outcome = .returned ∧ is = ⟨file, none⟩) := by
  cases name : sizeTAt file p with
  | none =>
      rw [loadEntry_missing name] at ran
      cases ran
  | some nameLen =>
      by_cases long : memory < nameLen
      · exact Or.inl (.name name long)
      have short := Nat.le_of_not_lt long
      by_cases outside : file.length < p + 8 + nameLen
      · rw [loadEntry_incomplete name short outside] at ran
        cases ran
      have inside := Nat.le_of_not_lt outside
      have bounded : ((file.drop (p + 8)).take nameLen).length ≤ memory := (taken_length inside).symm ▸ short
      cases known : dict.find? ((file.drop (p + 8)).take nameLen) with
      | none =>
          rw [loadEntry_unknown name short inside known] at ran
          obtain ⟨rows, rowsRead, ran⟩ := Option.bind_eq_some_iff.mp ran
          obtain ⟨cols, colsRead, _⟩ := Option.map_eq_some_iff.mp ran
          refine Or.inr ⟨_, entryAt_of name rowsRead colsRead, bounded, Or.inl ?_⟩
          intro tensor found
          rw [known] at found
          cases found
      | some tensor =>
          rw [loadEntry_known name short inside known] at ran
          obtain ⟨read, ran, done⟩ := Option.map_eq_some_iff.mp ran
          rcases readBinary_cases (constructed _ tensor known) ran with ⟨rows, rowsRead, sameRows⟩ |
            ⟨cols, rowsRead, colsRead, sameCols⟩ | ⟨rowsRead, colsRead, complete⟩
          · exact Or.inl (.rows name short known rowsRead sameRows)
          · exact Or.inl (.cols name short known rowsRead colsRead sameCols)
          · refine Or.inr ⟨_, entryAt_of name rowsRead colsRead, bounded, ?_⟩
            rcases complete with complete | ⟨returned, failed⟩
            · left
              intro tensor' found
              rw [known] at found
              cases found
              exact ⟨rfl, rfl, complete⟩
            · cases done
              exact Or.inr ⟨returned, failed⟩

variable {position last last' : Option Nat} {entries entries' : List Entry}

theorem Walk.unique (walk : Walk file position entries last) (walk' : Walk file position entries' last')
    (less : entries.length ≤ entries'.length) : ∃ rest, entries' = entries ++ rest ∧ Walk file last rest last' := by
  induction walk generalizing entries' with
  | nil position => exact ⟨entries', rfl, walk'⟩
  | cons found walk ih =>
      cases walk' with
      | nil => cases less
      | cons found' walk' =>
          obtain rfl := Option.some.inj (found.symm.trans found')
          obtain ⟨rest, rfl, remaining⟩ := ih walk' (Nat.le_of_succ_le_succ less)
          exact ⟨rest, rfl, remaining⟩

theorem fold_alike (complete : ∀ entry ∈ entries, entry.Complete file dict) :
    Alike dict (entries.foldl (Entry.restore file) dict) := by
  induction entries generalizing dict with
  | nil => exact fun _ => rfl
  | cons entry entries ih =>
      rw [List.forall_mem_cons] at complete
      have first := restore_alike complete.1
      have rest := ih fun later member => first.complete (complete.2 later member)
      exact fun name => (rest name).trans (first name)

theorem loadEntries_of_walk (constructed : AllConstructed dict) (walk : Walk file position entries last)
    (fits : ∀ entry ∈ entries, entry.Fits memory file dict) (n : Nat) :
    loadEntries memory (entries.length + n) ⟨file, position⟩ dict =
      loadEntries memory n ⟨file, last⟩ (entries.foldl (Entry.restore file) dict) := by
  induction walk generalizing dict with
  | nil position => rw [List.length_nil, Nat.zero_add, List.foldl_nil]
  | cons found walk ih =>
      rw [List.forall_mem_cons] at fits
      have first := restore_alike fits.1.2
      have later := ih (first.constructed constructed) fun entry member =>
        ⟨(fits.2 entry member).1, first.complete (fits.2 entry member).2⟩
      rw [List.length_cons, Nat.add_right_comm, loadEntries, loadEntry_of_fits constructed found fits.1,
        List.foldl_cons, ← later]
      rfl

theorem loadEntries_cases {outcome : Outcome} {is : IStream} (constructed : AllConstructed dict)
    (ran : loadEntries memory n ⟨file, position⟩ dict = some (outcome, is, dict')) :
    ∃ entries last, Walk file position entries last ∧ (∀ entry ∈ entries, entry.Fits memory file dict) ∧
      (entries.length = n ∧ outcome = .returned ∨
        entries.length < n ∧ ∃ p, last = some p ∧ (Stops memory file dict p ∨
          outcome = .returned ∧ ∃ entry, entryAt file p = some entry ∧ ¬ entry.Complete file dict)) := by
  induction n generalizing position dict with
  | zero =>
      cases ran
      exact ⟨[], position, .nil position, List.forall_mem_nil _, Or.inl ⟨rfl, rfl⟩⟩
  | succ n ih =>
      cases position with
      | none => cases ran
      | some p =>
          obtain ⟨⟨first, is', between⟩, visited, ran⟩ := Option.bind_eq_some_iff.mp ran
          have here : Walk file (some p) [] (some p) := .nil _
          rcases loadEntry_cases constructed visited with stops | ⟨entry, found, short, complete | ⟨rfl, rfl⟩⟩
          · exact ⟨[], some p, here, List.forall_mem_nil _, Or.inr ⟨Nat.succ_pos n, p, rfl, Or.inl stops⟩⟩
          · rw [loadEntry_of_fits constructed found ⟨short, complete⟩] at visited
            cases visited
            have alike := restore_alike complete
            obtain ⟨entries, last, walk, fits, rest⟩ := ih (alike.constructed constructed) ran
            refine ⟨entry :: entries, last, .cons found walk, ?_, ?_⟩
            · rw [List.forall_mem_cons]
              exact ⟨⟨short, complete⟩, fun later member => ⟨(fits later member).1, alike.symm.complete (fits later member).2⟩⟩
            · rcases rest with ⟨all, returned⟩ | ⟨fewer, p, behind, rest⟩
              · exact Or.inl ⟨congrArg Nat.succ all, returned⟩
              · refine Or.inr ⟨Nat.succ_lt_succ fewer, p, behind, ?_⟩
                rcases rest with stops | ⟨returned, entry, found, incomplete⟩
                · exact Or.inl (alike.stops stops)
                · exact Or.inr ⟨returned, entry, found, fun complete => incomplete (alike.complete complete)⟩
          · cases n with
            | succ n => cases ran
            | zero =>
                cases ran
                by_cases complete : entry.Complete file dict
                · exact ⟨[entry], entry.next file, .cons found (.nil _),
                    List.forall_mem_singleton.mpr ⟨short, complete⟩, Or.inl ⟨rfl, rfl⟩⟩
                · exact ⟨[], some p, here, List.forall_mem_nil _,
                    Or.inr ⟨Nat.succ_pos 0, p, rfl, Or.inr ⟨rfl, entry, found, complete⟩⟩⟩

/-! ## All or nothing -/

def lastOf (entries : List Entry) (name : Name) : Option Entry := entries.reverse.find? fun entry => entry.name = name

def restored (file : List UInt8) (entries : List Entry) (name : Name) (tensor : Parameter) : Parameter :=
  { tensor with data := ((lastOf entries name).map (Entry.data file · tensor.data.length)).getD tensor.data }

theorem lastOf_cons (entry : Entry) (entries : List Entry) (name : Name) :
    lastOf (entry :: entries) name = (lastOf entries name).or (if entry.name = name then some entry else none) := by
  unfold lastOf
  rw [List.reverse_cons, List.find?_append, List.find?_singleton]
  congr 1
  by_cases here : entry.name = name
  · rw [if_pos (decide_eq_true here), if_pos here]
  · rw [if_neg (by simpa using here), if_neg here]

theorem restore_find?_self (known : dict.find? entry.name = some tensor) : (entry.restore file dict).find? entry.name =
    some { tensor with data := entry.data file tensor.data.length } := by
  simp only [Entry.restore, known, OrderedMap.find?_assign, if_true]

theorem restore_find?_of_ne {name : Name} (other : name ≠ entry.name) :
    (entry.restore file dict).find? name = dict.find? name := by
  unfold Entry.restore
  cases dict.find? entry.name with
  | none => rfl
  | some tensor => rw [OrderedMap.find?_assign, if_neg other]

theorem fold_find? (complete : ∀ entry ∈ entries, entry.Complete file dict) (name : Name) :
    (entries.foldl (Entry.restore file) dict).find? name = (dict.find? name).map (restored file entries name) := by
  induction entries generalizing dict with
  | nil => rw [List.foldl_nil, show restored file [] name = id from rfl, Option.map_id, id]
  | cons entry entries ih =>
      rw [List.forall_mem_cons] at complete
      have alike := restore_alike complete.1
      rw [List.foldl_cons, ih fun later member => alike.complete (complete.2 later member)]
      by_cases here : name = entry.name
      · subst here
        cases known : dict.find? entry.name with
        | none =>
            have unknown : (entry.restore file dict).find? entry.name = none := by
              rw [Entry.restore, known]
              exact known
            rw [unknown, Option.map_none, Option.map_none]
        | some tensor =>
            have length := data_length (complete.1 tensor known).2.2
            rw [restore_find?_self known, Option.map_some, Option.map_some]
            simp only [restored, lastOf_cons, if_true, length]
            cases lastOf entries entry.name with
            | none => rfl
            | some later => rfl
      · have same : restored file (entry :: entries) name = restored file entries name := by
          funext tensor
          simp only [restored, lastOf_cons, Ne.symm here, if_false, Option.or_none]
        rw [restore_find?_of_ne here, same]

theorem fold_eq_iff (complete : ∀ entry ∈ entries, entry.Complete file dict) :
    entries.foldl (Entry.restore file) dict = dict ↔ ∀ name tensor entry, dict.find? name = some tensor →
      lastOf entries name = some entry → entry.data file tensor.data.length = tensor.data := by
  constructor
  · intro same name tensor entry known latest
    have found := fold_find? complete name
    rw [same, known, Option.map_some, restored, latest, Option.some.injEq] at found
    exact (congrArg Tensor2D.data found).symm
  · intro same
    apply OrderedMap.ext_find?
    intro name
    rw [fold_find? complete]
    cases known : dict.find? name with
    | none => rfl
    | some tensor =>
        rw [Option.map_some, restored]
        cases latest : lastOf entries name with
        | none => rfl
        | some entry =>
            rw [Option.map_some, Option.getD_some, same name tensor entry known latest]

def Restored (file : List UInt8) (dict dict' : StateDict) : Prop :=
  ∃ entries last, sizeTAt file 0 = some entries.length ∧ Walk file (some 8) entries last ∧
    (∀ entry ∈ entries, entry.Complete file dict) ∧
      ∀ name, dict'.find? name = (dict.find? name).map (restored file entries name)

def AllOrNothing (memory : Nat) (dict : StateDict) (file : List UInt8) : Prop :=
  ∃ outcome is dict', load memory dict file = some (outcome, is, dict') ∧
    (outcome = .returned → Restored file dict dict') ∧ (outcome = .threw → dict' = dict)

/-- The file has all the entries that it says, or there is one at which `load` throws and what the entries before it
have for the registered parameters is what these hold. -/
def Intact (memory : Nat) (dict : StateDict) (file : List UInt8) : Prop :=
  ∃ count entries last, sizeTAt file 0 = some count ∧ Walk file (some 8) entries last ∧
    (∀ entry ∈ entries, entry.Fits memory file dict) ∧
      (entries.length = count ∨
        entries.length < count ∧ (∃ p, last = some p ∧ Stops memory file dict p) ∧
          ∀ name tensor entry, dict.find? name = some tensor → lastOf entries name = some entry →
            entry.data file tensor.data.length = tensor.data)

theorem load_eq : load memory dict file =
    (sizeTAt file 0).bind fun count => loadEntries memory count ⟨file, some 8⟩ dict := by
  rw [load]
  cases found : sizeTAt file 0 with
  | none =>
      rw [readSizeT_none found]
      rfl
  | some count =>
      rw [readSizeT_some found]
      rfl

theorem loadEntries_of_stops (constructed : AllConstructed dict) (walk : Walk file position entries (some p))
    (fits : ∀ entry ∈ entries, entry.Fits memory file dict) (fewer : entries.length < n)
    (stops : Stops memory file dict p) :
    ∃ is, loadEntries memory n ⟨file, position⟩ dict = some (.threw, is, entries.foldl (Entry.restore file) dict) := by
  obtain ⟨rest, rfl⟩ := Nat.exists_eq_add_of_lt fewer
  have alike := fold_alike fun entry member => (fits entry member).2
  obtain ⟨is, threw⟩ := loadEntry_of_stops (alike.symm.stops stops)
  refine ⟨is, ?_⟩
  rw [Nat.add_assoc, loadEntries_of_walk constructed walk fits, loadEntries, threw]
  rfl

theorem load_all_or_nothing_iff (constructed : AllConstructed dict) :
    AllOrNothing memory dict file ↔ Intact memory dict file := by
  constructor
  · rintro ⟨outcome, is, dict', ran, returned, threw⟩
    rw [load_eq] at ran
    obtain ⟨count, counted, ran⟩ := Option.bind_eq_some_iff.mp ran
    obtain ⟨entries, last, walk, fits, ⟨all, _⟩ | ⟨fewer, p, rfl, stops | ⟨done, entry, found, incomplete⟩⟩⟩ :=
      loadEntries_cases constructed ran
    · exact ⟨count, entries, last, counted, walk, fits, Or.inl all⟩
    · refine ⟨count, entries, some p, counted, walk, fits, Or.inr ⟨fewer, ⟨p, rfl, stops⟩, ?_⟩⟩
      obtain ⟨is', ran'⟩ := loadEntries_of_stops constructed walk fits fewer stops
      cases ran.symm.trans ran'
      exact (fold_eq_iff fun entry member => (fits entry member).2).mp (threw rfl)
    · obtain ⟨entries', last', counted', walk', complete, _⟩ := returned done
      obtain rfl := Option.some.inj (counted.symm.trans counted')
      obtain ⟨rest, rfl, remaining⟩ := walk.unique walk' (Nat.le_of_lt fewer)
      cases remaining with
      | nil => simp at fewer
      | cons found' _ =>
          obtain rfl := Option.some.inj (found.symm.trans found')
          exact absurd (complete entry (by simp)) incomplete
  · rintro ⟨count, entries, last, counted, walk, fits, rest⟩
    have complete := fun entry member => (fits entry member).2
    rcases rest with rfl | ⟨fewer, ⟨p, rfl, stops⟩, same⟩
    · refine ⟨.returned, ⟨file, last⟩, entries.foldl (Entry.restore file) dict, ?_, ?_, fun threw => nomatch threw⟩
      · rw [load_eq, counted, Option.bind_some]
        exact loadEntries_of_walk constructed walk fits 0
      · exact fun _ => ⟨entries, last, counted, walk, complete, fold_find? complete⟩
    · obtain ⟨is, threw⟩ := loadEntries_of_stops constructed walk fits fewer stops
      refine ⟨.threw, is, _, ?_, (fun returned => nomatch returned), fun _ => (fold_eq_iff complete).mpr same⟩
      rw [load_eq, counted, Option.bind_some]
      exact threw

def scalar (bits : UInt32) : Parameter := { rows := 1, cols := 1, data := [bits] }

/-- The second tensor has another shape than the parameter that is registered for it. -/
theorem load_stops_halfway :
    let registered := registerParameter (registerParameter .empty [97] (scalar 0)) [98] (scalar 0)
    let checkpoint := registerParameter (registerParameter .empty [97] (scalar 1065353216)) [98]
      { rows := 1, cols := 2, data := [0, 0] }
    ¬ AllOrNothing 8 registered (save checkpoint) := by
  intro registered checkpoint
  rintro ⟨outcome, is, dict, ran, _, threw⟩
  have before : (registered.find? [97]).map Tensor2D.data = some [0] := by decide +kernel
  have half : (load 8 registered (save checkpoint)).map
      (fun read => (read.1, (read.2.2.find? [97]).map Tensor2D.data)) = some (.threw, some [1065353216]) := by
    decide +kernel
  rw [ran, Option.map_some, Option.some.injEq, Prod.mk.injEq] at half
  rw [← threw half.1, half.2] at before
  cases before

/-! ## Saved maps -/

structure RowMajor (tensor : Parameter) : Prop where
  straight : tensor.isTransposed = false
  length_eq : tensor.data.length = tensor.rows * tensor.cols
  rows_lt : tensor.rows < 2 ^ 64
  cols_lt : tensor.cols < 2 ^ 64
  bytes_lt : tensor.rows * tensor.cols * 4 < 2 ^ 63

theorem RowMajor.constructed (rowMajor : RowMajor tensor) : Constructed tensor := by
  have length := rowMajor.length_eq
  have bytes := rowMajor.bytes_lt
  unfold Constructed sizeT maxSize
  omega

def savedAt (p : Nat) (saved : Name × Parameter) : Entry :=
  { name := saved.1, rows := saved.2.rows, cols := saved.2.cols, start := p + 8 + saved.1.length + 8 + 8 }

def layout : Nat → List (Name × Parameter) → List Entry
  | _, [] => []
  | p, saved :: rest => savedAt p saved :: layout (p + (saveEntry saved).length) rest

variable {front back : List UInt8} {saved : Name × Parameter}

theorem sizeTAt_of_eq (small : n < 2 ^ 64) (split : file = front ++ (littleEndian 8 n ++ back))
    (here : p = front.length) : sizeTAt file p = some n := by
  have length : (littleEndian 8 n).length = 8 := littleEndian_length 8 n
  have taken : ((front ++ (littleEndian 8 n ++ back)).drop front.length).take 8 = littleEndian 8 n := by
    rw [List.drop_left, List.take_left' length]
  have inside : front.length + 8 ≤ (front ++ (littleEndian 8 n ++ back)).length := by
    simp only [List.length_append, length]
    omega
  have fits : n < 256 ^ 8 := small
  rw [split, here, sizeTAt, if_pos inside, taken, ofLittleEndian_littleEndian, Nat.mod_eq_of_lt fits]

theorem saveEntry_length (saved : Name × Parameter) :
    (saveEntry saved).length = 8 + saved.1.length + 8 + 8 + saved.2.data.length * 4 := by
  simp only [saveEntry, Tensor2D.writeBinary, List.length_append, littleEndian_length, bytesOf_length]
  omega

theorem entryAt_saved (rowMajor : RowMajor saved.2) (short : saved.1.length < 2 ^ 64)
    (split : file = front ++ (saveEntry saved ++ back)) :
    entryAt file front.length = some (savedAt front.length saved) := by
  have length : (littleEndian 8 saved.1.length).length = 8 := littleEndian_length _ _
  have name : sizeTAt file front.length = some saved.1.length :=
    sizeTAt_of_eq short (by rw [split, saveEntry, List.append_assoc, List.append_assoc]) rfl
  have rows : sizeTAt file (front.length + 8 + saved.1.length) = some saved.2.rows := by
    have behind : file = (front ++ littleEndian 8 saved.1.length ++ saved.1) ++
        (littleEndian 8 saved.2.rows ++ (littleEndian 8 saved.2.cols ++ bytesOf saved.2.data ++ back)) := by
      simp only [split, saveEntry, Tensor2D.writeBinary, List.append_assoc]
    apply sizeTAt_of_eq rowMajor.rows_lt behind
    simp only [List.length_append, length]
  have cols : sizeTAt file (front.length + 8 + saved.1.length + 8) = some saved.2.cols := by
    have behind : file = (front ++ littleEndian 8 saved.1.length ++ saved.1 ++ littleEndian 8 saved.2.rows) ++
        (littleEndian 8 saved.2.cols ++ (bytesOf saved.2.data ++ back)) := by
      simp only [split, saveEntry, Tensor2D.writeBinary, List.append_assoc]
    apply sizeTAt_of_eq rowMajor.cols_lt behind
    simp only [List.length_append, littleEndian_length]
  have named : (file.drop (front.length + 8)).take saved.1.length = saved.1 := by
    have here : front.length + 8 = (front ++ littleEndian 8 saved.1.length).length := by
      rw [List.length_append, length]
    have behind : file = (front ++ littleEndian 8 saved.1.length) ++ (saved.1 ++ (saved.2.writeBinary ++ back)) := by
      simp only [split, saveEntry, List.append_assoc]
    rw [here, behind, List.drop_left, List.take_left]
  rw [entryAt_of name rows cols, named]
  rfl

theorem savedAt_data (split : file = front ++ (saveEntry saved ++ back)) :
    (savedAt front.length saved).data file saved.2.data.length = saved.2.data ∧
      (savedAt front.length saved).start + saved.2.data.length * 4 ≤ file.length := by
  have front' : file = (front ++ littleEndian 8 saved.1.length ++ saved.1 ++ littleEndian 8 saved.2.rows ++
      littleEndian 8 saved.2.cols) ++ (bytesOf saved.2.data ++ back) := by
    simp only [split, saveEntry, Tensor2D.writeBinary, List.append_assoc]
  have start : (savedAt front.length saved).start = (front ++ littleEndian 8 saved.1.length ++ saved.1 ++
      littleEndian 8 saved.2.rows ++ littleEndian 8 saved.2.cols).length := by
    simp only [savedAt, List.length_append, littleEndian_length]
  constructor
  · rw [Entry.data, start, front', List.drop_left, ← bytesOf_length, List.take_left, floatsOf_bytesOf]
  · have length := congrArg List.length front'
    rw [List.length_append, ← start, List.length_append, bytesOf_length] at length
    omega

theorem walk_saved {rest : List (Name × Parameter)} (split : file = front ++ rest.flatMap saveEntry)
    (rowMajor : ∀ saved ∈ rest, RowMajor saved.2) (short : ∀ saved ∈ rest, saved.1.length < 2 ^ 64) :
    Walk file (some front.length) (layout front.length rest) (some file.length) := by
  induction rest generalizing front with
  | nil =>
      rw [List.flatMap_nil, List.append_nil] at split
      rw [split]
      exact .nil _
  | cons saved rest ih =>
      rw [List.forall_mem_cons] at rowMajor short
      rw [List.flatMap_cons] at split
      have next : (savedAt front.length saved).next file = some (front ++ saveEntry saved).length := by
        rw [Entry.next_eq rowMajor.1.constructed rfl rfl, List.length_append, saveEntry_length, savedAt]
        simp only [Nat.add_assoc]
      apply Walk.cons (entryAt_saved rowMajor.1 short.1 split)
      rw [next, ← List.length_append]
      exact ih (by rw [split, List.append_assoc]) rowMajor.2 short.2

theorem mem_layout {rest : List (Name × Parameter)} (split : file = front ++ rest.flatMap saveEntry)
    (member : entry ∈ layout front.length rest) :
    ∃ saved ∈ rest, ∃ front back, file = front ++ (saveEntry saved ++ back) ∧ entry = savedAt front.length saved := by
  induction rest generalizing front with
  | nil => cases member
  | cons saved rest ih =>
      rw [List.flatMap_cons] at split
      rcases List.mem_cons.mp member with rfl | member
      · exact ⟨saved, List.mem_cons_self, front, _, split, rfl⟩
      · rw [← List.length_append] at member
        obtain ⟨later, found, rest⟩ := ih (by rw [split, List.append_assoc]) member
        exact ⟨later, List.mem_cons_of_mem saved found, rest⟩

theorem layout_names (p : Nat) (rest : List (Name × Parameter)) :
    (layout p rest).map Entry.name = rest.map Prod.fst := by
  induction rest generalizing p with
  | nil => rfl
  | cons saved rest ih => rw [layout, List.map_cons, List.map_cons, ih, savedAt]

theorem lastOf_mem {name : Name} (found : lastOf entries name = some entry) : entry ∈ entries ∧ entry.name = name := by
  refine ⟨List.mem_reverse.mp (List.mem_of_find?_eq_some found), ?_⟩
  simpa using List.find?_some found

theorem lastOf_eq_none {name : Name} (missing : lastOf entries name = none) : name ∉ entries.map Entry.name := by
  intro member
  obtain ⟨entry, found, named⟩ := List.mem_map.mp member
  have other := List.find?_eq_none.mp missing entry (List.mem_reverse.mpr found)
  exact other (decide_eq_true named)

structure Compatible (memory : Nat) (checkpoint registered : StateDict) : Prop where
  saved : ∀ name tensor, checkpoint.find? name = some tensor → RowMajor tensor
  rowMajor : ∀ name tensor, registered.find? name = some tensor → RowMajor tensor
  shapes : ∀ name tensor tensor', checkpoint.find? name = some tensor → registered.find? name = some tensor' →
    tensor.rows = tensor'.rows ∧ tensor.cols = tensor'.cols
  count : checkpoint.entries.length < 2 ^ 64
  names : ∀ name ∈ checkpoint.keys, name.length ≤ memory
  memory_lt : memory < 2 ^ 64

section Saved

variable {checkpoint registered : StateDict}

def savedEntries (checkpoint : StateDict) : List Entry := layout 8 checkpoint.entries

theorem save_split : save checkpoint = littleEndian 8 checkpoint.entries.length ++ checkpoint.entries.flatMap saveEntry :=
  rfl

theorem Compatible.count_saved (compatible : Compatible memory checkpoint registered) :
    sizeTAt (save checkpoint) 0 = some checkpoint.entries.length :=
  sizeTAt_of_eq compatible.count (List.nil_append _).symm rfl

theorem Compatible.walk (compatible : Compatible memory checkpoint registered) :
    Walk (save checkpoint) (some 8) (savedEntries checkpoint) (some (save checkpoint).length) := by
  have start : (littleEndian 8 checkpoint.entries.length).length = 8 := littleEndian_length _ _
  have walk := walk_saved (@save_split checkpoint)
    (fun saved member => compatible.saved saved.1 saved.2 (checkpoint.find?_eq_some_iff.mpr member))
    fun saved member => Nat.lt_of_le_of_lt (compatible.names saved.1 (List.mem_map_of_mem member)) compatible.memory_lt
  rwa [start] at walk

theorem mem_savedEntries (member : entry ∈ savedEntries checkpoint) :
    ∃ tensor, checkpoint.find? entry.name = some tensor ∧ entry.rows = tensor.rows ∧ entry.cols = tensor.cols ∧
      entry.data (save checkpoint) tensor.data.length = tensor.data ∧
        entry.start + tensor.data.length * 4 ≤ (save checkpoint).length := by
  have start : (littleEndian 8 checkpoint.entries.length).length = 8 := littleEndian_length _ _
  rw [savedEntries, ← start] at member
  obtain ⟨saved, found, front, back, split, rfl⟩ := mem_layout save_split member
  obtain ⟨data, inside⟩ := savedAt_data split
  exact ⟨saved.2, checkpoint.find?_eq_some_iff.mpr found, rfl, rfl, data, inside⟩

theorem Compatible.same_length (compatible : Compatible memory checkpoint registered) {name : Name}
    {tensor tensor' : Parameter} (saved : checkpoint.find? name = some tensor)
    (known : registered.find? name = some tensor') : tensor.data.length = tensor'.data.length := by
  obtain ⟨rows, cols⟩ := compatible.shapes name tensor tensor' saved known
  rw [(compatible.saved name tensor saved).length_eq, (compatible.rowMajor name tensor' known).length_eq, rows, cols]

theorem Compatible.fits (compatible : Compatible memory checkpoint registered) :
    ∀ entry ∈ savedEntries checkpoint, entry.Fits memory (save checkpoint) registered := by
  intro entry member
  obtain ⟨tensor, found, rows, cols, _, inside⟩ := mem_savedEntries member
  constructor
  · exact compatible.names entry.name (checkpoint.find?_isSome_iff.mp ⟨tensor, found⟩)
  · intro tensor' known
    obtain ⟨sameRows, sameCols⟩ := compatible.shapes entry.name tensor tensor' found known
    rw [rows, cols, ← compatible.same_length found known]
    exact ⟨sameRows, sameCols, inside⟩

theorem Compatible.restored_eq (compatible : Compatible memory checkpoint registered) {name : Name} {tensor : Parameter}
    (known : registered.find? name = some tensor) :
    restored (save checkpoint) (savedEntries checkpoint) name tensor = (checkpoint.find? name).getD tensor := by
  unfold restored
  cases latest : lastOf (savedEntries checkpoint) name with
  | none =>
      have absent := lastOf_eq_none latest
      rw [savedEntries, layout_names] at absent
      rw [checkpoint.find?_eq_none_iff.mpr absent]
      rfl
  | some entry =>
      obtain ⟨member, rfl⟩ := lastOf_mem latest
      obtain ⟨source, found, _, _, data, _⟩ := mem_savedEntries member
      obtain ⟨sameRows, sameCols⟩ := compatible.shapes entry.name source tensor found known
      have straight := (compatible.saved _ source found).straight.trans (compatible.rowMajor _ tensor known).straight.symm
      rw [Option.map_some, Option.getD_some, ← compatible.same_length found known, data, found, Option.getD_some,
        ← sameRows, ← sameCols, ← straight]

theorem savedEntries_length : (savedEntries checkpoint).length = checkpoint.entries.length := by
  have names := congrArg List.length (layout_names 8 checkpoint.entries)
  rwa [List.length_map, List.length_map] at names

theorem load_save (compatible : Compatible memory checkpoint registered) :
    ∃ dict, load memory registered (save checkpoint) =
        some (.returned, ⟨save checkpoint, some (save checkpoint).length⟩, dict) ∧
      ∀ name, dict.find? name = (registered.find? name).map fun tensor => (checkpoint.find? name).getD tensor := by
  have constructed : AllConstructed registered := fun name tensor known =>
    (compatible.rowMajor name tensor known).constructed
  refine ⟨(savedEntries checkpoint).foldl (Entry.restore (save checkpoint)) registered, ?_, ?_⟩
  · rw [load_eq, compatible.count_saved, Option.bind_some, ← savedEntries_length]
    exact loadEntries_of_walk constructed compatible.walk compatible.fits 0
  · intro name
    rw [fold_find? fun entry member => (compatible.fits entry member).2]
    cases known : registered.find? name with
    | none => rfl
    | some tensor => rw [Option.map_some, Option.map_some, compatible.restored_eq known]

theorem scalar_rowMajor (bits : UInt32) : RowMajor (scalar bits) := by
  have small : 1 < 2 ^ 64 := by decide
  have bytes : 1 * 1 * 4 < 2 ^ 63 := by decide
  exact ⟨rfl, rfl, small, small, bytes⟩

theorem registered_cases {name first second : Name} {tensor tensor' : Parameter} {found : Parameter}
    (known : (registerParameter (registerParameter .empty first tensor) second tensor').find? name = some found) :
    name = second ∧ found = tensor' ∨ name = first ∧ found = tensor := by
  simp only [registerParameter, OrderedMap.find?_assign] at known
  split at known
  · rename_i here
    exact Or.inl ⟨here, (Option.some.inj known).symm⟩
  · split at known
    · rename_i here
      exact Or.inr ⟨here, (Option.some.inj known).symm⟩
    · cases known

theorem load_save_renamed :
    let registered := registerParameter (registerParameter .empty [97] (scalar 0)) [99] (scalar 7)
    let checkpoint := registerParameter (registerParameter .empty [97] (scalar 1065353216)) [98]
      { rows := 1, cols := 2, data := [0, 0] }
    ∃ dict, load 8 registered (save checkpoint) =
        some (.returned, ⟨save checkpoint, some (save checkpoint).length⟩, dict) ∧
      ∀ name, dict.find? name = (registered.find? name).map fun tensor => (checkpoint.find? name).getD tensor := by
  intro registered checkpoint
  apply load_save
  constructor
  · intro name tensor found
    rcases registered_cases found with ⟨_, rfl⟩ | ⟨_, rfl⟩
    · exact ⟨rfl, rfl, by decide, by decide, by decide⟩
    · exact scalar_rowMajor _
  · intro name tensor found
    rcases registered_cases found with ⟨_, rfl⟩ | ⟨_, rfl⟩
    · exact scalar_rowMajor _
    · exact scalar_rowMajor _
  · intro name tensor tensor' found found'
    rcases registered_cases found with ⟨here, rfl⟩ | ⟨_, rfl⟩
    · rcases registered_cases found' with ⟨there, _⟩ | ⟨there, _⟩
      · exact absurd (here.symm.trans there) (by decide)
      · exact absurd (here.symm.trans there) (by decide)
    · rcases registered_cases found' with ⟨_, rfl⟩ | ⟨_, rfl⟩
      · exact ⟨rfl, rfl⟩
      · exact ⟨rfl, rfl⟩
  · decide +kernel
  · decide +kernel
  · decide

theorem load_save_all_or_nothing :
    let registered := registerParameter (registerParameter .empty [97] (scalar 0)) [98] (scalar 0)
    AllOrNothing 8 registered (save registered) := by
  intro registered
  have scalars : ∀ name tensor, registered.find? name = some tensor → RowMajor tensor := by
    intro name tensor found
    rcases registered_cases found with ⟨_, rfl⟩ | ⟨_, rfl⟩
    · exact scalar_rowMajor 0
    · exact scalar_rowMajor 0
  have compatible : Compatible 8 registered registered := by
    constructor
    · exact scalars
    · exact scalars
    · intro name tensor tensor' found found'
      cases found.symm.trans found'
      exact ⟨rfl, rfl⟩
    · decide +kernel
    · decide +kernel
    · decide
  exact (load_all_or_nothing_iff fun name tensor known => (scalars name tensor known).constructed).mpr
    ⟨_, _, _, compatible.count_saved, compatible.walk, compatible.fits, Or.inl savedEntries_length⟩

end Saved

end Iteration

end KnowledgeAcquisition.Proof.MachineLearning
