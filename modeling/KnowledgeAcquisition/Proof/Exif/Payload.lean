import KnowledgeAcquisition.Exif.Payload
import KnowledgeAcquisition.Library.Tiff

/-!
# Reading the payload back

Every entry of the payload holds an offset, and every offset is right. A reader takes the offset of a short string for
the string.
-/

namespace KnowledgeAcquisition.Proof.Exif
open KnowledgeAcquisition.Exif Library Tiff

variable {file front rest text : List UInt8} {offset : Nat} {fields : List (Nat × List UInt8)}

theorem lowByte_eq {byte : UInt8} {n bits : Nat} (same : byte.toNat = (n >>> bits &&& 255) % 256) :
    byte = UInt8.ofNat (n / 2 ^ bits) := by
  apply UInt8.toNat_inj.mp
  rw [same, UInt8.toNat_ofNat', show 255 = 2 ^ 8 - 1 from rfl, Nat.and_two_pow_sub_one_eq_mod, Nat.shiftRight_eq_div_pow]
  exact Nat.mod_mod _ _

theorem littleEndian_two (n : Nat) : littleEndian 2 n = [UInt8.ofNat (n / 2 ^ 0), UInt8.ofNat (n / 2 ^ 8)] := by
  rw [pow_zero, Nat.div_one]
  rfl

theorem littleEndian_four (n : Nat) : littleEndian 4 n = [UInt8.ofNat (n / 2 ^ 0), UInt8.ofNat (n / 2 ^ 8),
    UInt8.ofNat (n / 2 ^ 16), UInt8.ofNat (n / 2 ^ 24)] := by
  rw [pow_zero, Nat.div_one]
  simp only [littleEndian, Nat.div_div_eq_div_mul]
  rfl

theorem pushUint16Le_eq (vec : List UInt8) (val : UInt16) : pushUint16Le vec val = vec ++ littleEndian 2 val.toNat := by
  have first : (val &&& 0xFF).toUInt8 = UInt8.ofNat (val.toNat / 2 ^ 0) := lowByte_eq rfl
  have second : (val >>> 8 &&& 0xFF).toUInt8 = UInt8.ofNat (val.toNat / 2 ^ 8) := lowByte_eq rfl
  rw [pushUint16Le, first, second, littleEndian_two]

theorem pushUint32Le_eq (vec : List UInt8) (val : UInt32) : pushUint32Le vec val = vec ++ littleEndian 4 val.toNat := by
  have first : (val &&& 0xFF).toUInt8 = UInt8.ofNat (val.toNat / 2 ^ 0) := lowByte_eq rfl
  have second : (val >>> 8 &&& 0xFF).toUInt8 = UInt8.ofNat (val.toNat / 2 ^ 8) := lowByte_eq rfl
  have third : (val >>> 16 &&& 0xFF).toUInt8 = UInt8.ofNat (val.toNat / 2 ^ 16) := lowByte_eq rfl
  have fourth : (val >>> 24 &&& 0xFF).toUInt8 = UInt8.ofNat (val.toNat / 2 ^ 24) := lowByte_eq rfl
  rw [pushUint32Le, first, second, third, fourth, littleEndian_four]

def tagEntry (offset : Nat) (field : Nat × List UInt8) : Entry :=
  { tag := field.1, type := 2, count := field.2.length + 1, field := littleEndian 4 offset }

theorem componentCount_toNat (small : text.length < 65000) : (componentCount text).toNat = text.length + 1 := by
  rw [componentCount, UInt32.toNat_ofNat']
  omega

theorem pushTag_eq (payload : List UInt8) (tag : UInt16) (small : text.length < 65000) (offset : UInt32) :
    pushTag payload tag text offset = payload ++ (tagEntry offset.toNat (tag.toNat, text)).encode := by
  rw [pushTag, pushUint16Le_eq, pushUint16Le_eq, pushUint32Le_eq, pushUint32Le_eq, componentCount_toNat small]
  simp only [Entry.encode, tagEntry, List.append_assoc]
  rfl

def directory : Nat → List (Nat × List UInt8) → List Entry
  | _, [] => []
  | offset, field :: fields => tagEntry offset field :: directory (offset + field.2.length + 1) fields

def area (fields : List (Nat × List UInt8)) : List UInt8 := fields.flatMap fun field => field.2 ++ [0]

def exifFields (make model software copyright dateTime : List UInt8) : List (Nat × List UInt8) :=
  [(0x010F, make), (0x0110, model), (0x0131, software), (0x8298, copyright), (0x0132, dateTime)]

theorem offset_add {offset : UInt32} (inside : offset.toNat + text.length < 131072) :
    (offset + componentCount text).toNat = offset.toNat + text.length + 1 := by
  rw [componentCount, UInt32.toNat_add, UInt32.toNat_ofNat']
  omega

theorem payload_eq {make model software copyright dateTime : List UInt8}
    (total : make.length + model.length + software.length + copyright.length + dateTime.length < 65000) :
    buildPureExifPayload make model software copyright dateTime =
      byteOrder ++ (littleEndian 4 8 ++ (littleEndian 2 5 ++
        ((directory 74 (exifFields make model software copyright dateTime)).flatMap Entry.encode ++
          (littleEndian 4 0 ++ area (exifFields make model software copyright dateTime))))) := by
  have start : (74 : UInt32).toNat = 74 := rfl
  have second : (74 + componentCount make).toNat = 74 + make.length + 1 := offset_add (by omega)
  have third : (74 + componentCount make + componentCount model).toNat = 74 + make.length + 1 + model.length + 1 := by
    rw [offset_add (by omega), second]
  have fourth : (74 + componentCount make + componentCount model + componentCount software).toNat =
      74 + make.length + 1 + model.length + 1 + software.length + 1 := by
    rw [offset_add (by omega), third]
  have fifth : (74 + componentCount make + componentCount model + componentCount software +
      componentCount copyright).toNat =
      74 + make.length + 1 + model.length + 1 + software.length + 1 + copyright.length + 1 := by
    rw [offset_add (by omega), fourth]
  have header : (8 : UInt32).toNat = 8 ∧ (5 : UInt16).toNat = 5 ∧ (0 : UInt32).toNat = 0 := ⟨rfl, rfl, rfl⟩
  have tags : (0x010F : UInt16).toNat = 0x010F ∧ (0x0110 : UInt16).toNat = 0x0110 ∧ (0x0131 : UInt16).toNat = 0x0131 ∧
      (0x8298 : UInt16).toNat = 0x8298 ∧ (0x0132 : UInt16).toNat = 0x0132 := ⟨rfl, rfl, rfl, rfl, rfl⟩
  rw [buildPureExifPayload, pushTag_eq _ _ (show make.length < 65000 by omega),
    pushTag_eq _ _ (show model.length < 65000 by omega), pushTag_eq _ _ (show software.length < 65000 by omega),
    pushTag_eq _ _ (show copyright.length < 65000 by omega), pushTag_eq _ _ (show dateTime.length < 65000 by omega),
    start, second, third, fourth, fifth]
  simp only [pushUint32Le_eq, pushUint16Le_eq, header, tags, exifFields, directory, area, List.flatMap_cons,
    List.flatMap_nil, List.append_assoc, List.append_nil]
  rfl

/-! ## Reading -/

/-- A text is found where its entry points, or its entry looks like it. -/
def Recoverable (offset : Nat) (text : List UInt8) : Prop :=
  4 ≤ text.length ∨ text ++ [0] = (littleEndian 4 offset).take (text.length + 1)

def AllRecoverable : Nat → List (Nat × List UInt8) → Prop
  | _, [] => True
  | offset, field :: fields => Recoverable offset field.2 ∧ AllRecoverable (offset + field.2.length + 1) fields

theorem text_eq_iff {field : Nat × List UInt8}
    (stored : slice file offset (field.2.length + 1) = some (field.2 ++ [0])) (fits : offset < 256 ^ 4) :
    (tagEntry offset field).text file = some field.2 ↔ Recoverable offset field.2 := by
  rw [Entry.text, tagEntry, if_pos rfl, Entry.content, Recoverable]
  by_cases short : field.2.length + 1 ≤ 4
  · rw [if_pos short, Option.bind_some, terminated_eq_some_iff, eq_comm]
    exact (or_iff_right (by omega)).symm
  · rw [if_neg short, ofLittleEndian_littleEndian, Nat.mod_eq_of_lt fits, stored, Option.bind_some,
      terminated_eq_some_iff]
    exact iff_of_true rfl (Or.inl (by omega))

def Placed (file : List UInt8) (offset : Nat) (fields : List (Nat × List UInt8)) : Prop :=
  ∃ front, file = front ++ area fields ∧ offset = front.length

theorem Placed.cons {field : Nat × List UInt8} (placed : Placed file offset (field :: fields)) :
    slice file offset (field.2.length + 1) = some (field.2 ++ [0]) ∧
      Placed file (offset + field.2.length + 1) fields ∧ offset + (field.2.length + 1) ≤ file.length := by
  obtain ⟨front, layout, place⟩ := placed
  have length : (field.2 ++ [0]).length = field.2.length + 1 := by rw [List.length_append, List.length_singleton]
  rw [area, List.flatMap_cons] at layout
  have stored := slice_at layout place
  rw [length] at stored
  rw [← List.append_assoc] at layout
  refine ⟨stored, ⟨_, layout, ?_⟩, ?_⟩
  · rw [List.length_append, length, place, Nat.add_assoc]
  · rw [layout, List.length_append, List.length_append, length, place]
    omega

theorem texts_iff (distinct : (fields.map Prod.fst).Nodup) (placed : Placed file offset fields)
    (fits : file.length < 256 ^ 4) :
    (∀ field ∈ fields,
      ((directory offset fields).find? fun entry => entry.tag = field.1).bind (·.text file) = some field.2) ↔
      AllRecoverable offset fields := by
  induction fields generalizing offset with
  | nil => exact iff_of_true nofun trivial
  | cons field fields ih =>
      obtain ⟨fresh, distinct⟩ := List.nodup_cons.mp distinct
      obtain ⟨stored, placed, inside⟩ := placed.cons
      rw [directory, AllRecoverable, ← ih distinct placed, ← text_eq_iff stored (by omega), List.forall_mem_cons]
      apply and_congr
      · simp only [List.find?_cons, tagEntry, decide_true, Option.bind_some]
      · apply forall₂_congr
        intro other member
        have apart : (tagEntry offset field).tag ≠ other.1 := by
          intro same
          exact fresh (List.mem_map.mpr ⟨other, member, same.symm⟩)
        simp only [List.find?_cons, apart, decide_false]

theorem directory_length (offset : Nat) (fields : List (Nat × List UInt8)) :
    (directory offset fields).length = fields.length := by
  induction fields generalizing offset with
  | nil => rfl
  | cons field fields ih => rw [directory, List.length_cons, List.length_cons, ih]

theorem directory_encodable (small : ∀ field ∈ fields, field.1 < 256 ^ 2 ∧ field.2.length + 1 < 256 ^ 4) :
    ∀ entry ∈ directory offset fields, entry.Encodable := by
  induction fields generalizing offset with
  | nil => nofun
  | cons field fields ih =>
      rw [List.forall_mem_cons] at small
      exact List.forall_mem_cons.mpr
        ⟨⟨small.1.1, (by decide : 2 < 256 ^ 2), small.1.2, littleEndian_length 4 offset⟩, ih small.2⟩

theorem directory_inside (placed : Placed file offset fields) (fits : file.length < 256 ^ 4) :
    ∀ entry ∈ directory offset fields, ofLittleEndian entry.field + entry.count ≤ file.length := by
  induction fields generalizing offset with
  | nil => nofun
  | cons field fields ih =>
      obtain ⟨-, placed, inside⟩ := placed.cons
      refine List.forall_mem_cons.mpr ⟨?_, ih placed⟩
      rw [tagEntry, ofLittleEndian_littleEndian, Nat.mod_eq_of_lt (by omega)]
      exact inside

structure Recovered (payload : List UInt8) (fields : List (Nat × List UInt8)) : Prop where
  texts : ∀ field ∈ fields, readText payload field.1 = some field.2
  inside : ∃ entries, readDirectory payload = some entries ∧
    ∀ entry ∈ entries, 4 < entry.count → ofLittleEndian entry.field + entry.count ≤ payload.length

theorem encode_length {entries : List Entry} (encodable : ∀ entry ∈ entries, entry.Encodable) :
    (entries.flatMap Entry.encode).length = 12 * entries.length := by
  induction entries with
  | nil => rfl
  | cons entry entries ih =>
      rw [List.forall_mem_cons] at encodable
      rw [List.flatMap_cons, List.length_append, encodable.1.length, ih encodable.2, List.length_cons]
      omega

theorem area_length (fields : List (Nat × List UInt8)) :
    (area fields).length = (fields.map fun field => field.2.length + 1).sum := by
  rw [area, List.length_flatMap]
  simp only [List.length_append, List.length_singleton]

theorem recovered_of_layout (distinct : (fields.map Prod.fst).Nodup)
    (small : ∀ field ∈ fields, field.1 < 256 ^ 2 ∧ field.2.length + 1 < 256 ^ 4) (five : fields.length = 5)
    (fits : (area fields).length < 65005)
    (layout : file = byteOrder ++ (littleEndian 4 8 ++ (littleEndian 2 5 ++
      ((directory 74 fields).flatMap Entry.encode ++ (littleEndian 4 0 ++ area fields))))) :
    Recovered file fields ↔ AllRecoverable 74 fields := by
  have encodable : ∀ entry ∈ directory 74 fields, entry.Encodable := directory_encodable small
  have entryCount : (directory 74 fields).length = 5 := by rw [directory_length, five]
  have before := encode_length encodable
  rw [entryCount] at before
  have read : readDirectory file = some (directory 74 fields) :=
    readDirectory_eq encodable (by omega) (entryCount.symm ▸ layout)
  simp only [← List.append_assoc] at layout
  have length : file.length = 74 + (area fields).length := by
    rw [layout, List.length_append]
    simp only [List.length_append, littleEndian_length, before]
    rfl
  have placed : Placed file 74 fields := by
    refine ⟨_, layout, ?_⟩
    simp only [List.length_append, littleEndian_length, before]
    rfl
  rw [← texts_iff distinct placed (by omega)]
  constructor
  · intro recovered field member
    have text := recovered.texts field member
    rw [readText, read] at text
    exact text
  · intro texts
    refine ⟨?_, _, read, fun entry member _ => directory_inside placed (by omega) entry member⟩
    intro field member
    rw [readText, read]
    exact texts field member

theorem recovered_iff {make model software copyright dateTime : List UInt8}
    (total : make.length + model.length + software.length + copyright.length + dateTime.length < 65000) :
    Recovered (buildPureExifPayload make model software copyright dateTime)
        (exifFields make model software copyright dateTime) ↔
      AllRecoverable 74 (exifFields make model software copyright dateTime) := by
  have distinct : ((exifFields make model software copyright dateTime).map Prod.fst).Nodup := by
    rw [exifFields]
    simp only [List.map_cons, List.map_nil]
    decide
  have small : ∀ field ∈ exifFields make model software copyright dateTime,
      field.1 < 256 ^ 2 ∧ field.2.length + 1 < 256 ^ 4 := by
    simp only [exifFields, List.forall_mem_cons, List.not_mem_nil, false_implies, implies_true, and_true]
    omega
  have areaLength : (area (exifFields make model software copyright dateTime)).length < 65005 := by
    rw [area_length, exifFields]
    simp only [List.map_cons, List.map_nil, List.sum_cons, List.sum_nil]
    omega
  exact recovered_of_layout distinct small rfl areaLength (payload_eq total)

/-- A text of one byte that equals the low byte of its offset. -/
theorem recovered_coincidence :
    let text : List UInt8 := [0x74, 0x65, 0x78, 0x74]
    Recovered (buildPureExifPayload [0x4A] text text text text) (exifFields [0x4A] text text text text) := by
  intro text
  apply (recovered_iff (by decide)).mpr
  have long (offset : Nat) : Recoverable offset text := Or.inl (by decide)
  exact ⟨Or.inr (by decide), long _, long _, long _, long _, trivial⟩

theorem short_text_lost :
    let text : List UInt8 := [0x74, 0x65, 0x78, 0x74]
    ¬ Recovered (buildPureExifPayload [0x61, 0x62, 0x63] text text text text)
      (exifFields [0x61, 0x62, 0x63] text text text text) := by
  intro text recovered
  have read := recovered.texts (0x010F, [0x61, 0x62, 0x63]) List.mem_cons_self
  have found : readText (buildPureExifPayload [0x61, 0x62, 0x63] text text text text) 0x010F = some [0x4A, 0, 0] := by
    decide
  rw [found] at read
  cases read

end KnowledgeAcquisition.Proof.Exif
