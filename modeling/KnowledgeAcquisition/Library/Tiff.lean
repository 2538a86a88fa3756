import KnowledgeAcquisition.Library.Bytes

/-!
# Little-endian TIFF

A reader of the first directory of a file. The bytes of an entry are in its value field when they are at most four, and
at the offset that the field holds otherwise; a text ends with a zero byte that is counted.
-/

namespace KnowledgeAcquisition.Library.Tiff

variable {file front rest bytes : List UInt8} {offset : Nat}

def slice (file : List UInt8) (offset size : Nat) : Option (List UInt8) :=
  if offset + size ≤ file.length then some ((file.drop offset).take size) else none

def number (file : List UInt8) (offset size : Nat) : Option Nat := (slice file offset size).map ofLittleEndian

structure Entry where
  tag : Nat
  type : Nat
  count : Nat
  field : List UInt8

def Entry.encode (entry : Entry) : List UInt8 :=
  littleEndian 2 entry.tag ++ littleEndian 2 entry.type ++ littleEndian 4 entry.count ++ entry.field

def readEntry (file : List UInt8) (offset : Nat) : Option Entry := do
  let tag ← number file offset 2
  let type ← number file (offset + 2) 2
  let count ← number file (offset + 4) 4
  let field ← slice file (offset + 8) 4
  some { tag, type, count, field }

def readEntries (file : List UInt8) (offset : Nat) : Nat → Option (List Entry)
  | 0 => some []
  | count + 1 => do
      let entry ← readEntry file offset
      let entries ← readEntries file (offset + 12) count
      some (entry :: entries)

def byteOrder : List UInt8 := [0x49, 0x49, 0x2A, 0x00]

def readDirectory (file : List UInt8) : Option (List Entry) := do
  let mark ← slice file 0 4
  if mark ≠ byteOrder then none
  else do
    let directory ← number file 4 4
    let count ← number file directory 2
    readEntries file (directory + 2) count

def Entry.content (entry : Entry) (file : List UInt8) : Option (List UInt8) :=
  if entry.count ≤ 4 then some (entry.field.take entry.count)
  else slice file (ofLittleEndian entry.field) entry.count

def terminated (bytes : List UInt8) : Option (List UInt8) :=
  if bytes.getLast? = some 0 then some bytes.dropLast else none

def Entry.text (entry : Entry) (file : List UInt8) : Option (List UInt8) :=
  if entry.type = 2 then (entry.content file).bind terminated else none

def readText (file : List UInt8) (tag : Nat) : Option (List UInt8) := do
  let entries ← readDirectory file
  let entry ← entries.find? fun entry => entry.tag = tag
  entry.text file

theorem slice_at (layout : file = front ++ (bytes ++ rest)) (place : offset = front.length) :
    slice file offset bytes.length = some bytes := by
  have inside : offset + bytes.length ≤ file.length := by
    rw [layout, place, List.length_append, List.length_append]
    omega
  rw [slice, if_pos inside, layout, place, List.drop_left, List.take_left]

theorem number_at {width n : Nat} (layout : file = front ++ (littleEndian width n ++ rest))
    (place : offset = front.length) (fits : n < 256 ^ width) : number file offset width = some n := by
  have found := slice_at layout place
  rw [littleEndian_length] at found
  rw [number, found, Option.map_some, ofLittleEndian_littleEndian, Nat.mod_eq_of_lt fits]

structure Entry.Encodable (entry : Entry) : Prop where
  tag : entry.tag < 256 ^ 2
  type : entry.type < 256 ^ 2
  count : entry.count < 256 ^ 4
  field : entry.field.length = 4

theorem Entry.Encodable.length {entry : Entry} (encodable : entry.Encodable) : entry.encode.length = 12 := by
  simp only [Entry.encode, List.length_append, littleEndian_length, encodable.field]

theorem readEntry_at {entry : Entry} (encodable : entry.Encodable) (layout : file = front ++ (entry.encode ++ rest))
    (place : offset = front.length) : readEntry file offset = some entry := by
  simp only [Entry.encode, List.append_assoc] at layout
  have tag := number_at layout place encodable.tag
  rw [← List.append_assoc] at layout
  have type : number file (offset + 2) 2 = some entry.type := number_at layout (by simp [place]) encodable.type
  rw [← List.append_assoc] at layout
  have count : number file (offset + 4) 4 = some entry.count := number_at layout (by simp [place]) encodable.count
  rw [← List.append_assoc] at layout
  have field : slice file (offset + 8) 4 = some entry.field :=
    encodable.field ▸ slice_at layout (by simp [place])
  simp only [readEntry, tag, type, count, field, Option.bind_eq_bind, Option.bind_some]

theorem readEntries_at {entries : List Entry} (encodable : ∀ entry ∈ entries, entry.Encodable)
    (layout : file = front ++ (entries.flatMap Entry.encode ++ rest)) (place : offset = front.length) :
    readEntries file offset entries.length = some entries := by
  induction entries generalizing front offset with
  | nil => rfl
  | cons entry entries ih =>
      rw [List.forall_mem_cons] at encodable
      rw [List.flatMap_cons, List.append_assoc] at layout
      have first := readEntry_at encodable.1 layout place
      rw [← List.append_assoc] at layout
      have next : readEntries file (offset + 12) entries.length = some entries :=
        ih encodable.2 layout (by rw [List.length_append, encodable.1.length, place])
      simp only [List.length_cons, readEntries, first, next, Option.bind_eq_bind, Option.bind_some]

theorem readDirectory_eq {entries : List Entry} (encodable : ∀ entry ∈ entries, entry.Encodable)
    (few : entries.length < 256 ^ 2)
    (layout : file = byteOrder ++ (littleEndian 4 8 ++ (littleEndian 2 entries.length ++
      (entries.flatMap Entry.encode ++ rest)))) : readDirectory file = some entries := by
  have mark : slice file 0 byteOrder.length = some byteOrder := slice_at (layout.trans (List.nil_append _).symm) rfl
  change slice file 0 4 = some byteOrder at mark
  have directory : number file 4 4 = some 8 := number_at layout rfl (by decide)
  rw [← List.append_assoc] at layout
  have count : number file 8 2 = some entries.length := number_at layout rfl few
  rw [← List.append_assoc] at layout
  have read : readEntries file 10 entries.length = some entries := readEntries_at encodable layout rfl
  simp only [readDirectory, mark, directory, count, read, Option.bind_eq_bind, Option.bind_some, ne_eq, not_true, if_false]

theorem terminated_eq_some_iff {text : List UInt8} : terminated bytes = some text ↔ bytes = text ++ [0] := by
  unfold terminated
  constructor
  · intro read
    split at read
    · rename_i last
      obtain ⟨front, rfl⟩ := List.getLast?_eq_some_iff.mp last
      rw [List.dropLast_concat, Option.some.injEq] at read
      rw [read]
    · cases read
  · rintro rfl
    rw [if_pos List.getLast?_concat, List.dropLast_concat]

end KnowledgeAcquisition.Library.Tiff
