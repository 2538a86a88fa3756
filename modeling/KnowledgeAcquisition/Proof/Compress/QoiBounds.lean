import KnowledgeAcquisition.Proof.Compress.QoiImages
import Mathlib.Data.List.GetD

/-!
# Accesses of the QOI codec

When the decoder stays inside its two arrays, for any bytes, and when the encoder stays inside the pixels.
-/

namespace KnowledgeAcquisition.Proof.Compress
open KnowledgeAcquisition.Compress Library

def operands (b1 : UInt8) : Nat :=
  if b1 = 0xFE then 3 else if b1 = 0xFF then 4 else if b1 &&& 0xC0 = 0x80 then 1 else 0

def pixels (b1 : UInt8) : Nat :=
  if b1 = 0xFE ∨ b1 = 0xFF ∨ b1 &&& 0xC0 ≠ 0xC0 then 1 else (b1 &&& 0x3F).toNat + 1

/-- Up to the last of so many pixels every tag has its operands, and no run is longer than the pixels left. -/
inductive Sound : Nat → List UInt8 → Prop where
  | full (bytes : List UInt8) : Sound 0 bytes
  | ended (left : Nat) : Sound left []
  | tag {left : Nat} {b1 : UInt8} {rest : List UInt8} (complete : operands b1 ≤ rest.length)
      (fits : pixels b1 ≤ left) (later : Sound (left - pixels b1) (rest.drop (operands b1))) : Sound left (b1 :: rest)

theorem sound_cons_iff {left : Nat} (more : 0 < left) (b1 : UInt8) (rest : List UInt8) :
    Sound left (b1 :: rest) ↔ operands b1 ≤ rest.length ∧ pixels b1 ≤ left ∧
      Sound (left - pixels b1) (rest.drop (operands b1)) := by
  constructor
  · intro sound
    cases sound with
    | full => exact absurd more (Nat.lt_irrefl 0)
    | tag complete fits later => exact ⟨complete, fits, later⟩
  · rintro ⟨complete, fits, later⟩
    exact .tag complete fits later

theorem writePixel_full {total : Nat} {registers : List QoiPixel} (full : total ≤ registers.length)
    (unread : List UInt8) (colorHistory : ColorHistory) (px : QoiPixel) :
    (decoder unread colorHistory px registers).writePixel (total * 4) = none := by
  have outside : ¬ (registers.flatMap rgbx).length + 4 ≤ total * 4 := by
    rw [rgbx_length]
    omega
  simp only [Decoder.writePixel, decoder, outside, if_false]

theorem writeRun_full {total run : Nat} {registers : List QoiPixel} (room : registers.length ≤ total)
    (long : total < registers.length + run) (unread : List UInt8) (colorHistory : ColorHistory) (px : QoiPixel) :
    Decoder.writeRun (total * 4) run (decoder unread colorHistory px registers) = none := by
  induction run generalizing registers with
  | zero => omega
  | succ run ih =>
      rw [Decoder.writeRun]
      by_cases full : total ≤ registers.length
      · rw [writePixel_full full, Option.bind_none]
      · rw [writePixel_decoder (by omega), Option.bind_some]
        apply ih
        · rw [List.length_append, List.length_singleton]
          omega
        · rw [List.length_append, List.length_singleton]
          omega

theorem tag_cases (b1 : UInt8) : b1 = 0xFE ∨ b1 = 0xFF ∨ Tagged 0x00 b1 ∨ Tagged 0x40 b1 ∨ Tagged 0x80 b1 ∨
    Tagged 0xC0 b1 := by
  have bits : ∀ x : BitVec 8, x &&& 0xC0 = 0x00 ∨ x &&& 0xC0 = 0x40 ∨ x &&& 0xC0 = 0x80 ∨ x &&& 0xC0 = 0xC0 := by
    decide +kernel
  have upper : b1 &&& 0xC0 = 0x00 ∨ b1 &&& 0xC0 = 0x40 ∨ b1 &&& 0xC0 = 0x80 ∨ b1 &&& 0xC0 = 0xC0 := by
    simp only [← UInt8.toBitVec_inj]
    exact bits b1.toBitVec
  by_cases rgb : b1 = 0xFE
  · exact Or.inl rgb
  · by_cases rgba : b1 = 0xFF
    · exact Or.inr (Or.inl rgba)
    · simp only [Tagged, rgb, rgba, ne_eq, not_false_eq_true, true_and, false_or]
      exact upper

theorem Tagged.operands {tag b1 : UInt8} (tagged : Tagged tag b1) : operands b1 = if tag = 0x80 then 1 else 0 := by
  obtain ⟨notRgb, notRgba, upper⟩ := tagged
  simp only [Compress.operands, notRgb, notRgba, if_false, upper]

theorem Tagged.pixels {tag b1 : UInt8} (tagged : Tagged tag b1) :
    pixels b1 = if tag = 0xC0 then (b1 &&& 0x3F).toNat + 1 else 1 := by
  obtain ⟨notRgb, notRgba, upper⟩ := tagged
  simp only [Compress.pixels, notRgb, notRgba, false_or, upper, ne_eq, ite_not]

theorem exists_cons_of_le {n : Nat} {bytes : List UInt8} (enough : n + 1 ≤ bytes.length) :
    ∃ byte later, bytes = byte :: later ∧ n ≤ later.length := by
  cases bytes with
  | nil => cases enough
  | cons byte later => exact ⟨byte, later, rfl, Nat.le_of_succ_le_succ enough⟩

section Turn

variable {total : Nat} {registers : List QoiPixel} {b1 : UInt8} {rest : List UInt8} {colorHistory : ColorHistory}
  {px : QoiPixel}

theorem turn_complete (room : registers.length < total) (complete : operands b1 ≤ rest.length)
    (fits : pixels b1 ≤ total - registers.length) :
    ∃ colors next, (decoder (b1 :: rest) colorHistory px registers).turn (total * 4) =
      some (decoder (rest.drop (operands b1)) colors next (registers ++ List.replicate (pixels b1) next)) := by
  rcases tag_cases b1 with rfl | rfl | index | diff | luma | run
  · obtain ⟨r, rest, rfl, two⟩ := exists_cons_of_le (show 3 ≤ rest.length from complete)
    obtain ⟨g, rest, rfl, one⟩ := exists_cons_of_le two
    obtain ⟨b, later, rfl, -⟩ := exists_cons_of_le one
    exact ⟨_, _, emit_decoder room later colorHistory px { px with r, g, b }⟩
  · obtain ⟨r, rest, rfl, three⟩ := exists_cons_of_le (show 4 ≤ rest.length from complete)
    obtain ⟨g, rest, rfl, two⟩ := exists_cons_of_le three
    obtain ⟨b, rest, rfl, one⟩ := exists_cons_of_le two
    obtain ⟨a, later, rfl, -⟩ := exists_cons_of_le one
    exact ⟨_, _, emit_decoder room later colorHistory px { r, g, b, a }⟩
  · obtain ⟨notRgb, notRgba, upper⟩ := id index
    have slot : b1.toNat < 64 := by
      have bits : ∀ x : BitVec 8, x &&& 0xC0 = 0x00 → x.toNat < 64 := by decide +kernel
      exact bits b1.toBitVec (UInt8.toBitVec_inj.mpr upper)
    refine ⟨colorHistory.store colorHistory[b1.toNat], colorHistory[b1.toNat], ?_⟩
    simp only [Decoder.turn, readByte_decoder, Option.bind_eq_bind, Option.bind_some, notRgb, notRgba, upper, if_false,
      if_true, index.operands, index.pixels]
    rw [show (decoder rest colorHistory px registers).colorHistory[b1.toNat]? = _ from
      Vector.getElem?_eq_getElem slot, Option.bind_some]
    exact emit_decoder room rest colorHistory px _
  · obtain ⟨notRgb, notRgba, upper⟩ := id diff
    refine ⟨colorHistory.store (px.addDiff b1), px.addDiff b1, ?_⟩
    simp only [Decoder.turn, readByte_decoder, Option.bind_eq_bind, Option.bind_some, notRgb, notRgba, upper, if_false,
      diff.operands, diff.pixels]
    exact emit_decoder room rest colorHistory px _
  · obtain ⟨notRgb, notRgba, upper⟩ := id luma
    rw [luma.operands] at complete ⊢
    obtain ⟨b2, later, rfl, -⟩ := exists_cons_of_le (show 1 ≤ rest.length from complete)
    refine ⟨colorHistory.store (px.addLuma b1 b2), px.addLuma b1 b2, ?_⟩
    simp only [Decoder.turn, readByte_decoder, Option.bind_eq_bind, Option.bind_some, notRgb, notRgba, upper, if_false,
      luma.pixels]
    exact emit_decoder room later colorHistory px _
  · obtain ⟨notRgb, notRgba, upper⟩ := id run
    rw [run.pixels, if_pos rfl] at fits
    have written := @writeRun_decoder total ((b1 &&& 0x3F).toNat + 1) registers (by omega) rest colorHistory px
    refine ⟨colorHistory.store px, px, ?_⟩
    simp only [Decoder.turn, readByte_decoder, Option.bind_eq_bind, Option.bind_some, notRgb, notRgba, upper, if_false,
      run.operands, run.pixels, written]
    rfl

theorem turn_incomplete (room : registers.length < total)
    (incomplete : ¬(operands b1 ≤ rest.length ∧ pixels b1 ≤ total - registers.length)) :
    (decoder (b1 :: rest) colorHistory px registers).turn (total * 4) = none := by
  rcases tag_cases b1 with rfl | rfl | index | diff | luma | run
  · match rest, incomplete with
    | [], _ => rfl
    | [_], _ => rfl
    | [_, _], _ => rfl
    | _ :: _ :: _ :: later, short =>
        refine absurd ⟨?_, ?_⟩ short
        · exact Nat.le_add_left 3 later.length
        · exact Nat.le_sub_of_add_le (Nat.add_comm _ 1 ▸ room)
  · match rest, incomplete with
    | [], _ => rfl
    | [_], _ => rfl
    | [_, _], _ => rfl
    | [_, _, _], _ => rfl
    | _ :: _ :: _ :: _ :: later, short =>
        refine absurd ⟨?_, ?_⟩ short
        · exact Nat.le_add_left 4 later.length
        · exact Nat.le_sub_of_add_le (Nat.add_comm _ 1 ▸ room)
  · refine absurd ⟨?_, ?_⟩ incomplete
    · exact index.operands ▸ Nat.zero_le _
    · rw [index.pixels, if_neg (by decide)]
      omega
  · refine absurd ⟨?_, ?_⟩ incomplete
    · exact diff.operands ▸ Nat.zero_le _
    · rw [diff.pixels, if_neg (by decide)]
      omega
  · obtain ⟨notRgb, notRgba, upper⟩ := id luma
    rw [luma.operands, luma.pixels, if_pos rfl, if_neg (by decide)] at incomplete
    cases rest with
    | nil => simp [Decoder.turn, notRgb, notRgba, upper, decoder, Decoder.readByte]
    | cons b2 later => exact absurd ⟨Nat.le_add_left 1 later.length, Nat.sub_pos_of_lt room⟩ incomplete
  · obtain ⟨notRgb, notRgba, upper⟩ := id run
    rw [run.operands, run.pixels, if_neg (by decide), if_pos rfl] at incomplete
    have long : total < registers.length + ((b1 &&& 0x3F).toNat + 1) := by
      by_contra short
      exact incomplete ⟨Nat.zero_le _, by omega⟩
    simp only [Decoder.turn, readByte_decoder, Option.bind_eq_bind, Option.bind_some, notRgb, notRgba, upper, if_false,
      writeRun_full (Nat.le_of_lt room) long]
    rfl

end Turn

theorem run_isSome_iff {total fuel : Nat} {registers : List QoiPixel} (room : registers.length ≤ total)
    {unread : List UInt8} (enough : unread.length < fuel) (colorHistory : ColorHistory) (px : QoiPixel) :
    (Loop.run (Decoder.body total) fuel (decoder unread colorHistory px registers)).isSome ↔
      Sound (total - registers.length) unread := by
  -- One turn takes the tag with its operands and adds its pixels, or faults.
  induction fuel generalizing registers unread colorHistory px with
  | zero => exact absurd enough (Nat.not_lt_zero _)
  | succ fuel ih =>
      cases unread with
      | nil =>
          have leaves : Decoder.body total (decoder [] colorHistory px registers) =
              some (.inr (decoder [] colorHistory px registers)) := if_neg fun goes => goes.2 rfl
          simp only [Loop.run, leaves, Option.isSome_some, true_iff]
          exact .ended _
      | cons b1 rest =>
          by_cases full : registers.length = total
          · subst full
            rw [Loop.run, body_full, Nat.sub_self]
            exact ⟨fun _ => .full _, fun _ => rfl⟩
          · have space : registers.length < total := Nat.lt_of_le_of_ne room full
            have goes : Decoder.body total (decoder (b1 :: rest) colorHistory px registers) =
                ((decoder (b1 :: rest) colorHistory px registers).turn (total * 4)).map .inl :=
              if_pos ⟨space, List.cons_ne_nil b1 rest⟩
            rw [sound_cons_iff (Nat.sub_pos_of_lt space), Loop.run, goes]
            by_cases complete : operands b1 ≤ rest.length ∧ pixels b1 ≤ total - registers.length
            · obtain ⟨colors, next, turned⟩ :=
                @turn_complete total registers b1 rest colorHistory px space complete.1 complete.2
              have length : (registers ++ List.replicate (pixels b1) next).length = registers.length + pixels b1 := by
                rw [List.length_append, List.length_replicate]
              have later := @ih (registers ++ List.replicate (pixels b1) next) (by omega) (rest.drop (operands b1))
                (by rw [List.length_drop]; rw [List.length_cons] at enough; omega) colors next
              rw [length, ← Nat.sub_sub] at later
              rw [turned]
              simp only [Option.map_some, later, complete.1, complete.2, true_and]
            · rw [turn_incomplete space complete]
              simp only [Option.map_none, Option.isSome_none, Bool.false_eq_true, false_iff]
              exact fun sound => complete ⟨sound.1, sound.2.1⟩

theorem decompress_in_bounds_iff (imageWidth imageHeight : Nat) (compressedData : List UInt8) :
    (decompressQoiToBuffer imageWidth imageHeight compressedData).isSome ↔
      Sound (imageWidth * imageHeight) (compressedData.drop 14) := by
  rw [decompressQoiToBuffer, Option.isSome_map]
  refine @run_isSome_iff _ _ [] (Nat.zero_le _) _ ?_ ColorHistory.initial {}
  rw [List.length_drop]
  omega

/-- A tag of four bytes of which there is one. -/
theorem truncated_tag_faults : (List.replicate 14 0 ++ [0xFE] : List UInt8).length ≥ 14 ∧
    ¬(decompressQoiToBuffer 1 1 (List.replicate 14 0 ++ [0xFE])).isSome := by
  decide

/-! ## The encoder -/

section Encoder

variable {image : LoadedImage}

theorem offset_lt {px channel : Nat} (inside : px < image.w * image.h) (own : channel < image.channels) :
    px * image.channels + channel < image.rawPixels.length := by
  rw [image.size]
  calc px * image.channels + channel < px * image.channels + image.channels := Nat.add_lt_add_left own _
    _ = (px + 1) * image.channels := (Nat.succ_mul px image.channels).symm
    _ ≤ image.w * image.h * image.channels := Nat.mul_le_mul_right _ inside

theorem load?_eq (rgb : 3 ≤ image.channels) (prevPixel : QoiPixel) {px : Nat} (inside : px < image.w * image.h) :
    image.load? prevPixel px = some
      { r := image.rawPixels.getD (px * image.channels + 0) 0
        g := image.rawPixels.getD (px * image.channels + 1) 0
        b := image.rawPixels.getD (px * image.channels + 2) 0
        a := if image.channels = 4 then image.rawPixels.getD (px * image.channels + 3) 0 else prevPixel.a } := by
  have read : ∀ channel < image.channels, image.rawPixels[px * image.channels + channel]? =
      some (image.rawPixels.getD (px * image.channels + channel) 0) := by
    intro channel own
    rw [List.getElem?_eq_getElem (offset_lt inside own), List.getD_eq_getElem _ _ (offset_lt inside own)]
  simp only [LoadedImage.load?, read 0 (by omega), read 1 (by omega), read 2 (by omega), Option.bind_eq_bind,
    Option.bind_some]
  split
  case isTrue four => rw [read 3 (by omega), Option.bind_some]
  case isFalse => rfl

theorem load?_last (few : image.channels < 3) (prevPixel : QoiPixel) :
    image.load? prevPixel (image.w * image.h - 1) = none := by
  have some_ : 0 < image.w * image.h := Nat.mul_pos image.wInt.1 image.hInt.1
  have outside : image.rawPixels[(image.w * image.h - 1) * image.channels + 2]? = none := by
    rw [List.getElem?_eq_none_iff, image.size, Nat.sub_mul, Nat.one_mul]
    have least := Nat.le_mul_of_pos_left image.channels some_
    omega
  simp [LoadedImage.load?, outside]

theorem compress_in_bounds_iff (image : LoadedImage) :
    (compressToQoiRuntime? image).isSome ↔ 3 ≤ image.channels := by
  constructor
  · intro compressed
    by_contra few
    have last : ∀ s : Encoder, (image.load? s.prevPixel (image.w * image.h - 1)).map s.encodePixel = none := by
      intro s
      rw [load?_last (Nat.lt_of_not_le few), Option.map_none]
    obtain ⟨before, total⟩ := Nat.exists_eq_succ_of_ne_zero
      (Nat.ne_of_gt (Nat.mul_pos image.wInt.1 image.hInt.1) : image.w * image.h ≠ 0)
    rw [total] at last
    rw [compressToQoiRuntime?, total, List.range_succ, List.foldlM_append] at compressed
    have failed : ∀ s : Encoder, [before].foldlM (fun s px => (image.load? s.prevPixel px).map s.encodePixel) s =
        none := by
      intro s
      rw [List.foldlM_cons, show (image.load? s.prevPixel before).map s.encodePixel = none from last s]
      rfl
    simp [failed] at compressed
  · intro rgb
    have loads : ∀ px (s : Encoder), px < image.w * image.h → True →
        ∃ next, (image.load? s.prevPixel px).map s.encodePixel = some next ∧ True := by
      intro px s inside _
      exact ⟨_, by rw [load?_eq rgb s.prevPixel inside, Option.map_some], trivial⟩
    obtain ⟨last, finished, -⟩ := Loop.foldlM_range_total loads trivial
    rw [compressToQoiRuntime?, finished]
    rfl

end Encoder

def greyImage : LoadedImage where
  w := 1
  h := 1
  channels := 1
  rawPixels := [128]
  wInt := by decide
  hInt := by decide
  reported := by decide
  size := rfl

theorem grey_image_overread : ¬(compressToQoiRuntime? greyImage).isSome := by
  decide

end KnowledgeAcquisition.Proof.Compress
