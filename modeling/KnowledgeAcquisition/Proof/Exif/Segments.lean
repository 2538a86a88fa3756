import KnowledgeAcquisition.Exif.Segments
import Mathlib.Tactic.Common

/-!
# Skipping the old metadata

The offset at which the loop over the segments ends, and what is copied from there.
-/

namespace KnowledgeAcquisition.Proof.Exif
open KnowledgeAcquisition.Exif Library

/-- Every metadata segment ends within the bytes, up to another marker or the last four of them. -/
inductive Segmented : List UInt8 → Prop where
  | last {bytes : List UInt8} (short : bytes.length ≤ 4) : Segmented bytes
  | padding {byte : UInt8} {rest : List UInt8} (other : byte ≠ 0xFF) (later : Segmented rest) :
      Segmented (byte :: rest)
  | data {marker : UInt8} (rest : List UInt8) (other : ¬IsMetadata marker) : Segmented (0xFF :: marker :: rest)
  | segment {marker high low : UInt8} {rest : List UInt8} (metadata : IsMetadata marker)
      (complete : (segmentLen high low).toNat ≤ (high :: low :: rest).length)
      (later : Segmented ((high :: low :: rest).drop (segmentLen high low).toNat)) :
      Segmented (0xFF :: marker :: high :: low :: rest)

theorem segmented_padding_iff {byte : UInt8} {rest : List UInt8} (long : 4 ≤ rest.length) (other : byte ≠ 0xFF) :
    Segmented (byte :: rest) ↔ Segmented rest := by
  constructor
  · intro segmented
    cases segmented with
    | last short => exact absurd (Nat.lt_of_succ_le short) (Nat.not_lt_of_le long)
    | padding _ later => exact later
    | data => exact absurd rfl other
    | segment => exact absurd rfl other
  · exact .padding other

theorem segmented_segment_iff {marker high low : UInt8} {rest : List UInt8} (long : 1 ≤ rest.length)
    (metadata : IsMetadata marker) :
    Segmented (0xFF :: marker :: high :: low :: rest) ↔ (segmentLen high low).toNat ≤ (high :: low :: rest).length ∧
      Segmented ((high :: low :: rest).drop (segmentLen high low).toNat) := by
  constructor
  · intro segmented
    cases segmented with
    | last short =>
        simp only [List.length_cons] at short
        omega
    | padding other => exact absurd rfl other
    | data _ other => exact absurd metadata other
    | segment _ complete later => exact ⟨complete, later⟩
  · rintro ⟨complete, later⟩
    exact .segment metadata complete later

section Turn

variable {src : Source} {offset : UInt64} {ahead : List UInt8}

theorem toNat_size (src : Source) : src.size.toNat = src.bytes.length := by
  rw [Source.size, UInt64.toNat_ofNat']
  exact Nat.mod_eq_of_lt (Nat.lt_of_le_of_lt src.fits (by decide))

theorem goesOn_iff (header : 4 ≤ src.bytes.length) :
    offset < src.size - 4 ↔ offset.toNat + 4 < src.bytes.length := by
  have four : (4 : UInt64) ≤ src.size := by
    rw [UInt64.le_iff_toNat_le, toNat_size]
    exact header
  rw [UInt64.lt_iff_toNat_lt, UInt64.toNat_sub_of_le _ _ four, toNat_size]
  exact Nat.lt_sub_iff_add_lt

theorem toNat_advance (inside : offset.toNat ≤ src.bytes.length) (step : UInt64) (short : step.toNat ≤ 65537) :
    (offset + step).toNat = offset.toNat + step.toNat := by
  have fits := src.fits
  rw [UInt64.toNat_add]
  omega

theorem at?_advance (here : src.bytes.drop offset.toNat = ahead) (inside : offset.toNat ≤ src.bytes.length)
    (step : UInt64) (short : step.toNat ≤ 65537) : src.at? (offset + step) = ahead[step.toNat]? := by
  rw [Source.at?, toNat_advance inside step short, ← here, List.getElem?_drop]

theorem at?_offset (here : src.bytes.drop offset.toNat = ahead) : src.at? offset = ahead[0]? := by
  rw [Source.at?, ← here, List.getElem?_drop, Nat.add_zero]

theorem skipSegment_done (header : 4 ≤ src.bytes.length) (short : src.bytes.length ≤ offset.toNat + 4) :
    src.skipSegment offset = some (.inr offset) := by
  rw [Source.skipSegment, if_neg]
  rw [goesOn_iff header]
  exact Nat.not_lt_of_le short

theorem goesOn_ahead (header : 4 ≤ src.bytes.length) (here : src.bytes.drop offset.toNat = ahead)
    (long : 4 < ahead.length) : offset < src.size - 4 ∧ offset.toNat ≤ src.bytes.length := by
  have length := congrArg List.length here
  rw [List.length_drop] at length
  rw [goesOn_iff header]
  omega

theorem skipSegment_padding {byte : UInt8} {rest : List UInt8} (header : 4 ≤ src.bytes.length)
    (here : src.bytes.drop offset.toNat = byte :: rest) (long : 4 ≤ rest.length) (other : byte ≠ 0xFF) :
    src.skipSegment offset = some (.inl (offset + 1)) := by
  obtain ⟨goesOn, -⟩ := goesOn_ahead header here (Nat.lt_succ_of_le long)
  simp [Source.skipSegment, goesOn, at?_offset here, other]

theorem skipSegment_data {marker : UInt8} {rest : List UInt8} (header : 4 ≤ src.bytes.length)
    (here : src.bytes.drop offset.toNat = 0xFF :: marker :: rest) (long : 3 ≤ rest.length)
    (other : ¬IsMetadata marker) : src.skipSegment offset = some (.inr offset) := by
  obtain ⟨goesOn, inside⟩ := goesOn_ahead header here (Nat.add_lt_add_right (k := 2) long)
  have second := at?_advance here inside 1 (by decide)
  simp [Source.skipSegment, goesOn, at?_offset here, second, other]

theorem skipSegment_segment {marker high low : UInt8} {rest : List UInt8} (header : 4 ≤ src.bytes.length)
    (here : src.bytes.drop offset.toNat = 0xFF :: marker :: high :: low :: rest) (long : 1 ≤ rest.length)
    (metadata : IsMetadata marker) :
    src.skipSegment offset = some (.inl (offset + (2 + (segmentLen high low).toUInt64))) := by
  obtain ⟨goesOn, inside⟩ := goesOn_ahead header here (Nat.add_lt_add_right (k := 4) long)
  have second := at?_advance here inside 1 (by decide)
  have third := at?_advance here inside 2 (by decide)
  have fourth := at?_advance here inside 3 (by decide)
  simp [Source.skipSegment, goesOn, at?_offset here, second, third, fourth, metadata]

theorem toNat_segment_step (high low : UInt8) :
    (2 + (segmentLen high low).toUInt64).toNat = 2 + (segmentLen high low).toNat := by
  have length := (segmentLen high low).toNat_lt
  rw [UInt64.toNat_add, UInt16.toNat_toUInt64]
  exact Nat.mod_eq_of_lt (by simp only [UInt64.reduceToNat]; omega)

theorem toNat_past_segment (inside : offset.toNat ≤ src.bytes.length) (high low : UInt8) :
    (offset + (2 + (segmentLen high low).toUInt64)).toNat = offset.toNat + 2 + (segmentLen high low).toNat := by
  have length := (segmentLen high low).toNat_lt
  have step := toNat_segment_step high low
  rw [toNat_advance inside _ (by omega), step, Nat.add_assoc]

theorem long_cases {bytes : List UInt8} (long : 4 < bytes.length) :
    ∃ byte marker high low rest, bytes = byte :: marker :: high :: low :: rest ∧ 1 ≤ rest.length := by
  match bytes, long with
  | byte :: marker :: high :: low :: byte' :: rest, _ => exact ⟨byte, marker, high, low, _, rfl, Nat.succ_pos _⟩

theorem skipSegment_cases (header : 4 ≤ src.bytes.length) (inside : offset.toNat ≤ src.bytes.length) :
    (src.skipSegment offset = some (.inr offset) ∧ Segmented (src.bytes.drop offset.toNat)) ∨
    ∃ next, src.skipSegment offset = some (.inl next) ∧ offset.toNat < next.toNat ∧
      (Segmented (src.bytes.drop offset.toNat) ↔
        next.toNat ≤ src.bytes.length ∧ Segmented (src.bytes.drop next.toNat)) := by
  have length := List.length_drop (i := offset.toNat) (l := src.bytes)
  by_cases short : src.bytes.length ≤ offset.toNat + 4
  · exact Or.inl ⟨skipSegment_done header short, .last (by omega)⟩
  have long : 4 < (src.bytes.drop offset.toNat).length := by omega
  obtain ⟨byte, marker, high, low, rest, here, more⟩ := long_cases long
  rw [here] at length
  simp only [List.length_cons] at length
  by_cases prefixed : byte = 0xFF
  · subst prefixed
    by_cases metadata : IsMetadata marker
    · refine Or.inr ⟨_, skipSegment_segment header here more metadata, ?_⟩
      have complete : (segmentLen high low).toNat ≤ (high :: low :: rest).length ↔
          offset.toNat + 2 + (segmentLen high low).toNat ≤ src.bytes.length := by
        simp only [List.length_cons]
        omega
      rw [toNat_past_segment inside, ← List.drop_drop, ← List.drop_drop, here,
        segmented_segment_iff more metadata, complete]
      exact ⟨by omega, Iff.rfl⟩
    · exact Or.inl ⟨skipSegment_data header here (Nat.add_le_add_right (k := 2) more) metadata, here ▸ .data _ metadata⟩
  · refine Or.inr ⟨_, skipSegment_padding header here (Nat.add_le_add_right (k := 3) more) prefixed, ?_⟩
    have moved := toNat_advance inside 1 (by decide)
    have long : 4 ≤ (marker :: high :: low :: rest).length := Nat.add_le_add_right (k := 3) more
    rw [moved, ← List.drop_drop, here, segmented_padding_iff long prefixed]
    simp only [UInt64.reduceToNat, List.drop_succ_cons, List.drop_zero]
    constructor
    · omega
    · exact (and_iff_right (by omega)).symm

end Turn

/-! ## The whole loop -/

theorem skipMetadata_segmented {src : Source} (header : 4 ≤ src.bytes.length)
    (segmented : Segmented (src.bytes.drop 2)) :
    ∃ fuel offset, src.skipMetadata fuel = some offset ∧ offset.toNat ≤ src.bytes.length := by
  let I : Nat → UInt64 → Prop := fun left offset =>
    offset.toNat + left = src.bytes.length ∧ Segmented (src.bytes.drop offset.toNat)
  have advances : ∀ left offset, I left offset →
      Loop.Advances src.skipSegment I (fun last => last.toNat ≤ src.bytes.length) left offset := by
    rintro left offset ⟨measure, segmented⟩
    rcases skipSegment_cases header (Nat.le.intro measure) with ⟨done, -⟩ | ⟨next, again, further, same⟩
    · exact Or.inr ⟨offset, done, Nat.le.intro measure⟩
    · obtain ⟨inside, later⟩ := same.mp segmented
      exact Or.inl ⟨next, src.bytes.length - next.toNat, again, ⟨Nat.add_sub_of_le inside, later⟩, by omega⟩
  have start : I (src.bytes.length - 2) 2 := ⟨Nat.add_sub_of_le (Nat.le_trans (by decide) header), segmented⟩
  exact ⟨_, Loop.run_total advances _ _ 2 start (Nat.lt_succ_self _)⟩

theorem segmented_of_skipMetadata {src : Source} (header : 4 ≤ src.bytes.length) {fuel : Nat} {offset : UInt64}
    (skipped : src.skipMetadata fuel = some offset) (inside : offset.toNat ≤ src.bytes.length) :
    Segmented (src.bytes.drop 2) := by
  by_contra broken
  -- From a segment that is too long on, the offset is either beyond the end or before segments like it.
  let I : UInt64 → Prop := fun offset =>
    offset.toNat ≤ src.bytes.length → ¬Segmented (src.bytes.drop offset.toNat)
  have again : ∀ offset next, I offset → src.skipSegment offset = some (.inl next) → I next := by
    intro offset next bad turned inside segmented
    by_cases within : offset.toNat ≤ src.bytes.length
    · rcases skipSegment_cases header within with ⟨done, -⟩ | ⟨next', went, -, same⟩
      · cases done.symm.trans turned
      · cases went.symm.trans turned
        exact bad within (same.mpr ⟨inside, segmented⟩)
    · cases (skipSegment_done header (by omega)).symm.trans turned
  have leaves : ∀ offset last, I offset → src.skipSegment offset = some (.inr last) →
      ¬last.toNat ≤ src.bytes.length := by
    intro offset last bad left inside
    by_cases within : offset.toNat ≤ src.bytes.length
    · rcases skipSegment_cases header within with ⟨-, segmented⟩ | ⟨next, went, -⟩
      · exact bad within segmented
      · cases went.symm.trans left
    · cases (skipSegment_done header (by omega)).symm.trans left
      exact within inside
  have start : I 2 := fun _ => broken
  exact Loop.run_keeps again leaves start skipped inside

theorem length_of_isJpeg {src : Source} (jpeg : src.IsJpeg) : 2 ≤ src.bytes.length := by
  have size := toNat_size src
  have long : ¬src.size < 2 := fun short => jpeg (Or.inl short)
  rw [UInt64.lt_iff_toNat_lt, size] at long
  exact Nat.le_of_not_lt long

section Truncated

variable {src : Source} (truncated : src.bytes.length < 4)
include truncated

/-- The bound of the loop has wrapped around. -/
theorem goesOn_truncated {offset : UInt64} (near : offset.toNat < 4) : offset < src.size - 4 := by
  rw [UInt64.lt_iff_toNat_lt, UInt64.toNat_sub, toNat_size]
  simp only [UInt64.reduceToNat]
  omega

theorem skipMetadata_truncated (jpeg : src.IsJpeg) (fuel : Nat) : src.skipMetadata fuel = none := by
  have short := length_of_isJpeg jpeg
  have beyond : src.at? 3 = none := List.getElem?_eq_none (Nat.le_of_lt_succ truncated)
  have atThree : ∀ fuel, Loop.run src.skipSegment fuel 3 = none := by
    intro fuel
    cases fuel with
    | zero => rfl
    | succ fuel =>
        have wraps : (3 : UInt64) < src.size - 4 := goesOn_truncated truncated (by decide)
        simp [Loop.run, Source.skipSegment, wraps, beyond]
  cases fuel with
  | zero => rfl
  | succ fuel =>
      rw [Source.skipMetadata, Loop.run, Source.skipSegment, if_pos (goesOn_truncated truncated (by decide))]
      cases here : src.at? 2 with
      | none => rfl
      | some byte =>
          by_cases prefixed : byte = 0xFF
          · simp [prefixed, beyond]
          · simp [prefixed, atThree]

end Truncated

theorem remaining_inside {src : Source} {offset : UInt64} (inside : offset.toNat ≤ src.bytes.length) :
    src.remaining offset = some (src.bytes.drop offset.toNat) := by
  have count : (src.size - offset).toNat = src.bytes.length - offset.toNat := by
    rw [UInt64.toNat_sub_of_le _ _ (by rwa [UInt64.le_iff_toNat_le, toNat_size]), toNat_size]
  rw [Source.remaining, count, if_pos (Nat.le_of_eq (Nat.add_sub_of_le inside)), List.take_of_length_le]
  exact Nat.le_of_eq (List.length_drop ..)

theorem skipMetadata_copies_suffix_iff (src : Source) (jpeg : src.IsJpeg) :
    (∃ fuel offset, src.skipMetadata fuel = some offset ∧ offset.toNat ≤ src.bytes.length ∧
      src.remaining offset = some (src.bytes.drop offset.toNat)) ↔
    4 ≤ src.bytes.length ∧ Segmented (src.bytes.drop 2) := by
  constructor
  · rintro ⟨fuel, offset, skipped, inside, -⟩
    have header : 4 ≤ src.bytes.length := by
      by_contra truncated
      cases (skipMetadata_truncated (Nat.lt_of_not_le truncated) jpeg fuel).symm.trans skipped
    exact ⟨header, segmented_of_skipMetadata header skipped inside⟩
  · rintro ⟨header, segmented⟩
    obtain ⟨fuel, offset, skipped, inside⟩ := skipMetadata_segmented header segmented
    exact ⟨fuel, offset, skipped, inside, remaining_inside inside⟩

def jfif : Source where
  bytes := [0xFF, 0xD8, 0xFF, 0xE0, 0x00, 0x04, 0x4A, 0x46, 0xFF, 0xDB, 0x00, 0x43, 0x00]
  fits := by decide

theorem jfif_copies_suffix :
    ∃ fuel offset, jfif.skipMetadata fuel = some offset ∧ offset.toNat ≤ jfif.bytes.length ∧
      jfif.remaining offset = some (jfif.bytes.drop offset.toNat) := by
  have segmented : Segmented (jfif.bytes.drop 2) := by
    apply Segmented.segment
    · decide
    · decide
    · exact .data _ (by decide)
  exact (skipMetadata_copies_suffix_iff jfif (by decide)).mpr ⟨by decide, segmented⟩

def bare : Source where
  bytes := [0xFF, 0xD8]
  fits := by decide

theorem bare_accesses_outside :
    ¬∀ src : Source, src.IsJpeg → ∃ fuel offset, src.skipMetadata fuel = some offset ∧
      offset.toNat ≤ src.bytes.length ∧ src.remaining offset = some (src.bytes.drop offset.toNat) := by
  intro claim
  obtain ⟨fuel, offset, skipped, -⟩ := claim bare (by decide)
  have outside : bare.skipMetadata fuel = none := skipMetadata_truncated (by decide) (by decide) fuel
  cases outside.symm.trans skipped

end KnowledgeAcquisition.Proof.Exif
