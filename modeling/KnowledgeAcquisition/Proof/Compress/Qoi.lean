import KnowledgeAcquisition.Compress.Qoi

/-!
# QOI round trips

The encoder holds back a run until it ends, so what it still has to write is a function of its table, the
previous pixel, the pending run and the pixels to come. The decoder follows chunk by chunk.
-/

namespace KnowledgeAcquisition.Proof.Compress
open KnowledgeAcquisition.Compress Library

def Tagged (tag byte : UInt8) : Prop := byte ≠ 0xFE ∧ byte ≠ 0xFF ∧ byte &&& 0xC0 = tag

instance (tag byte : UInt8) : Decidable (Tagged tag byte) := inferInstanceAs (Decidable (_ ∧ _ ∧ _))

theorem index_fields : ∀ slot : Fin 64,
    Tagged 0x00 (0x00 ||| UInt8.ofNat slot) ∧ (0x00 ||| UInt8.ofNat slot).toNat = slot := by
  decide

theorem diff_fields : ∀ dr dg db : Fin 4,
    let byte := opDiff (UInt8.ofNat dr) (UInt8.ofNat dg) (UInt8.ofNat db)
    Tagged 0x40 byte ∧ (byte >>> 4) &&& 0x03 = UInt8.ofNat dr ∧ (byte >>> 2) &&& 0x03 = UInt8.ofNat dg ∧
      byte &&& 0x03 = UInt8.ofNat db := by
  decide

theorem luma_fields : ∀ dg : Fin 64,
    Tagged 0x80 (opLuma (UInt8.ofNat dg)) ∧ opLuma (UInt8.ofNat dg) &&& 0x3F = UInt8.ofNat dg := by
  decide

theorem luma_rest_fields : ∀ drDg dbDg : Fin 16,
    let byte := lumaRest (UInt8.ofNat drDg) (UInt8.ofNat dbDg)
    (byte >>> 4) &&& 0x0F = UInt8.ofNat drDg ∧ byte &&& 0x0F = UInt8.ofNat dbDg := by
  decide

theorem run_fields : ∀ more : Fin 62,
    Tagged 0xC0 (Encoder.runByte (more + 1)) ∧ (Encoder.runByte (more + 1) &&& 0x3F).toNat = more := by
  decide

theorem biased (value : Int) (width : Nat) (low : 0 ≤ value) (high : value < width) :
    ∃ field : Fin width, UInt8.ofInt value = UInt8.ofNat field ∧ (field : Int) = value := by
  refine ⟨⟨value.toNat, by omega⟩, ?_, ?_⟩
  · apply UInt8.toNat_inj.mp
    rw [UInt8.ofInt, UInt8.toNat_ofNat', UInt8.toNat_ofNat']
    simp only
    omega
  · simp only
    omega

theorem add_delta {curr prev : UInt8} {bias field : Nat} (small : bias < 256)
    (value : (field : Int) = delta curr prev + bias) : prev + (UInt8.ofNat field - UInt8.ofNat bias) = curr := by
  have bound := curr.toNat_lt
  have bound' := prev.toNat_lt
  apply UInt8.toNat_inj.mp
  simp only [UInt8.toNat_add, UInt8.toNat_sub, UInt8.toNat_ofNat']
  simp only [delta, int8] at value
  omega

theorem addDiff_eq {prev curr : QoiPixel} {dr dg db : Fin 4} (alpha : curr.a = prev.a)
    (red : (dr : Int) = delta curr.r prev.r + 2) (green : (dg : Int) = delta curr.g prev.g + 2)
    (blue : (db : Int) = delta curr.b prev.b + 2) :
    prev.addDiff (opDiff (UInt8.ofNat dr) (UInt8.ofNat dg) (UInt8.ofNat db)) = curr := by
  obtain ⟨-, redField, greenField, blueField⟩ := diff_fields dr dg db
  rw [QoiPixel.addDiff, redField, greenField, blueField]
  apply QoiPixel.mk.injEq .. |>.mpr
  refine ⟨?_, ?_, ?_, alpha.symm⟩
  · exact add_delta (by decide) red
  · exact add_delta (by decide) green
  · exact add_delta (by decide) blue

theorem add_luma {curr prev currGreen prevGreen : UInt8} {dg other : Nat}
    (green : (dg : Int) = delta currGreen prevGreen + 32)
    (value : (other : Int) = int8 (delta curr prev - delta currGreen prevGreen) + 8) :
    prev + (UInt8.ofNat dg - 32 - 8 + UInt8.ofNat other) = curr := by
  have bound := curr.toNat_lt
  have bound' := prev.toNat_lt
  have bias : UInt8.toNat 32 = 32 := rfl
  have bias' : UInt8.toNat 8 = 8 := rfl
  apply UInt8.toNat_inj.mp
  simp only [UInt8.toNat_add, UInt8.toNat_sub, UInt8.toNat_ofNat', bias, bias']
  simp only [delta, int8] at value green
  omega

theorem addLuma_eq {prev curr : QoiPixel} {dg : Fin 64} {drDg dbDg : Fin 16} (alpha : curr.a = prev.a)
    (green : (dg : Int) = delta curr.g prev.g + 32)
    (red : (drDg : Int) = int8 (delta curr.r prev.r - delta curr.g prev.g) + 8)
    (blue : (dbDg : Int) = int8 (delta curr.b prev.b - delta curr.g prev.g) + 8) :
    prev.addLuma (opLuma (UInt8.ofNat dg)) (lumaRest (UInt8.ofNat drDg) (UInt8.ofNat dbDg)) = curr := by
  obtain ⟨redField, blueField⟩ := luma_rest_fields drDg dbDg
  rw [QoiPixel.addLuma, (luma_fields dg).2, redField, blueField]
  apply QoiPixel.mk.injEq .. |>.mpr
  refine ⟨?_, ?_, ?_, alpha.symm⟩
  · exact add_luma green red
  · exact add_delta (by decide) green
  · exact add_luma green blue

def rgbx (px : QoiPixel) : List UInt8 := [px.r, px.g, px.b, 0xFF]

def decoder (unread : List UInt8) (colorHistory : ColorHistory) (px : QoiPixel) (registers : List QoiPixel) :
    Decoder where
  unread
  colorHistory
  px
  pixelCount := registers.length
  rawPixels := registers.flatMap rgbx
  registers

theorem rgbx_length (registers : List QoiPixel) : (registers.flatMap rgbx).length = registers.length * 4 := by
  induction registers with
  | nil => rfl
  | cons px registers ih =>
      simp only [List.flatMap_cons, List.length_append, ih, List.length_cons, rgbx, List.length_nil]
      omega

theorem writePixel_decoder {total : Nat} {registers : List QoiPixel} (room : registers.length < total)
    (unread : List UInt8) (colorHistory : ColorHistory) (px : QoiPixel) :
    (decoder unread colorHistory px registers).writePixel (total * 4) =
      some (decoder unread colorHistory px (registers ++ [px])) := by
  have fits : (registers.flatMap rgbx).length + 4 ≤ total * 4 := by
    rw [rgbx_length]
    omega
  simp only [Decoder.writePixel, decoder, fits, if_true, List.length_append, List.length_singleton,
    List.flatMap_append, List.flatMap_singleton]
  rfl

theorem emit_decoder {total : Nat} {registers : List QoiPixel} (room : registers.length < total)
    (unread : List UInt8) (colorHistory : ColorHistory) (px next : QoiPixel) :
    (decoder unread colorHistory px registers).emit (total * 4) next =
      some (decoder unread (colorHistory.store next) next (registers ++ [next])) :=
  writePixel_decoder room unread (colorHistory.store next) next

theorem writeRun_decoder {total run : Nat} {registers : List QoiPixel} (room : registers.length + run ≤ total)
    (unread : List UInt8) (colorHistory : ColorHistory) (px : QoiPixel) :
    Decoder.writeRun (total * 4) run (decoder unread colorHistory px registers) =
      some (decoder unread colorHistory px (registers ++ List.replicate run px)) := by
  induction run generalizing registers with
  | zero => simp [Decoder.writeRun]
  | succ run ih =>
      rw [Decoder.writeRun, writePixel_decoder (by omega), Option.bind_some, ih, List.replicate_succ,
        List.append_assoc, List.singleton_append]
      rw [List.length_append, List.length_singleton]
      omega

theorem readByte_decoder (byte : UInt8) (unread : List UInt8) (colorHistory : ColorHistory) (px : QoiPixel)
    (registers : List QoiPixel) : (decoder (byte :: unread) colorHistory px registers).readByte =
      some (byte, decoder unread colorHistory px registers) := rfl

theorem slot_getElem (colorHistory : ColorHistory) (px : QoiPixel) :
    colorHistory[px.hash]? = some (colorHistory.slot px) := by
  rw [Vector.getElem?_eq_getElem px.hash_lt]
  rfl

section Turns

variable {total : Nat} {registers : List QoiPixel} (unread : List UInt8) (colorHistory : ColorHistory)
  (px : QoiPixel)

theorem turn_run {run : Nat} (positive : 0 < run) (short : run ≤ 62) (room : registers.length + run ≤ total) :
    (decoder (Encoder.runByte run :: unread) colorHistory px registers).turn (total * 4) =
      some (decoder unread (colorHistory.store px) px (registers ++ List.replicate run px)) := by
  obtain ⟨⟨notRgb, notRgba, tag⟩, field⟩ := run_fields ⟨run - 1, by omega⟩
  simp only [Nat.sub_add_cancel positive] at notRgb notRgba tag field
  simp only [Decoder.turn, readByte_decoder, Option.bind_eq_bind, Option.bind_some, notRgb, notRgba, tag, if_false,
    field, Nat.sub_add_cancel positive, writeRun_decoder room]
  rfl

theorem turn_index (curr : QoiPixel) (room : registers.length < total) :
    (decoder ((0x00 ||| UInt8.ofNat curr.hash) :: unread) colorHistory px registers).turn (total * 4) =
      some (decoder unread (colorHistory.store (colorHistory.slot curr)) (colorHistory.slot curr)
        (registers ++ [colorHistory.slot curr])) := by
  obtain ⟨⟨notRgb, notRgba, tag⟩, field⟩ := index_fields ⟨curr.hash, curr.hash_lt⟩
  simp only at notRgb notRgba tag field
  simp only [Decoder.turn, readByte_decoder, Option.bind_eq_bind, Option.bind_some, notRgb, notRgba, tag, if_false,
    if_true, field]
  rw [show (decoder unread colorHistory px registers).colorHistory[curr.hash]? = _ from
    slot_getElem colorHistory curr, Option.bind_some]
  exact emit_decoder room unread colorHistory px _

theorem turn_diff {curr : QoiPixel} {dr dg db : Fin 4} (alpha : curr.a = px.a)
    (red : (dr : Int) = delta curr.r px.r + 2) (green : (dg : Int) = delta curr.g px.g + 2)
    (blue : (db : Int) = delta curr.b px.b + 2) (room : registers.length < total) :
    (decoder (opDiff (UInt8.ofNat dr) (UInt8.ofNat dg) (UInt8.ofNat db) :: unread) colorHistory px registers).turn
      (total * 4) = some (decoder unread (colorHistory.store curr) curr (registers ++ [curr])) := by
  obtain ⟨⟨notRgb, notRgba, tag⟩, -⟩ := diff_fields dr dg db
  have notIndex : (0x40 : UInt8) ≠ 0x00 := by decide
  simp only [Decoder.turn, readByte_decoder, Option.bind_eq_bind, Option.bind_some, notRgb, notRgba, tag, notIndex,
    if_false, if_true]
  rw [show (decoder unread colorHistory px registers).px.addDiff _ = curr from addDiff_eq alpha red green blue]
  exact emit_decoder room unread colorHistory px curr

theorem turn_luma {curr : QoiPixel} {dg : Fin 64} {drDg dbDg : Fin 16} (alpha : curr.a = px.a)
    (green : (dg : Int) = delta curr.g px.g + 32)
    (red : (drDg : Int) = int8 (delta curr.r px.r - delta curr.g px.g) + 8)
    (blue : (dbDg : Int) = int8 (delta curr.b px.b - delta curr.g px.g) + 8) (room : registers.length < total) :
    (decoder (opLuma (UInt8.ofNat dg) :: lumaRest (UInt8.ofNat drDg) (UInt8.ofNat dbDg) :: unread) colorHistory px
      registers).turn (total * 4) = some (decoder unread (colorHistory.store curr) curr (registers ++ [curr])) := by
  obtain ⟨⟨notRgb, notRgba, tag⟩, -⟩ := luma_fields dg
  have notIndex : (0x80 : UInt8) ≠ 0x00 := by decide
  have notDiff : (0x80 : UInt8) ≠ 0x40 := by decide
  simp only [Decoder.turn, readByte_decoder, Option.bind_eq_bind, Option.bind_some, notRgb, notRgba, tag, notIndex,
    notDiff, if_false, if_true]
  rw [show (decoder unread colorHistory px registers).px.addLuma _ _ = curr from addLuma_eq alpha green red blue]
  exact emit_decoder room unread colorHistory px curr

theorem turn_miss (curr : QoiPixel) (room : registers.length < total) :
    (decoder (encodeMiss px curr ++ unread) colorHistory px registers).turn (total * 4) =
      some (decoder unread (colorHistory.store curr) curr (registers ++ [curr])) := by
  unfold encodeMiss
  split
  case isFalse => exact emit_decoder room unread colorHistory px curr
  case isTrue alpha =>
      dsimp only
      split
      case isTrue small =>
          obtain ⟨dr, redField, red⟩ := biased (delta curr.r px.r + 2) 4 (by omega) (by omega)
          obtain ⟨dg, greenField, green⟩ := biased (delta curr.g px.g + 2) 4 (by omega) (by omega)
          obtain ⟨db, blueField, blue⟩ := biased (delta curr.b px.b + 2) 4 (by omega) (by omega)
          rw [redField, greenField, blueField]
          exact turn_diff unread colorHistory px alpha red green blue room
      case isFalse =>
          split
          case isTrue middle =>
              obtain ⟨dg, greenField, green⟩ := biased (delta curr.g px.g + 32) 64 (by omega) (by omega)
              obtain ⟨drDg, redField, red⟩ :=
                biased (int8 (delta curr.r px.r - delta curr.g px.g) + 8) 16 (by omega) (by omega)
              obtain ⟨dbDg, blueField, blue⟩ :=
                biased (int8 (delta curr.b px.b - delta curr.g px.g) + 8) 16 (by omega) (by omega)
              rw [greenField, redField, blueField]
              exact turn_luma unread colorHistory px alpha green red blue room
          case isFalse =>
              have whole : ({ px with r := curr.r, g := curr.g, b := curr.b } : QoiPixel) = curr := by
                rw [← alpha]
              rw [← whole]
              exact emit_decoder room unread colorHistory px _

end Turns

/-! ## What the encoder has still to write -/

def flushBytes (run : Nat) : List UInt8 := if 0 < run then [Encoder.runByte run] else []

def pixelBytes (colorHistory : ColorHistory) (prev curr : QoiPixel) : List UInt8 :=
  if colorHistory.slot curr = curr then [0x00 ||| UInt8.ofNat curr.hash] else encodeMiss prev curr

def noted (colorHistory : ColorHistory) (curr : QoiPixel) : ColorHistory :=
  if colorHistory.slot curr = curr then colorHistory else colorHistory.store curr

def bytesFrom (colorHistory : ColorHistory) (prev : QoiPixel) (run : Nat) : List QoiPixel → List UInt8
  | [] => flushBytes run
  | curr :: pixels =>
      if curr = prev then
        if run + 1 = 62 then Encoder.runByte 62 :: bytesFrom colorHistory prev 0 pixels
        else bytesFrom colorHistory prev (run + 1) pixels
      else flushBytes run ++ (pixelBytes colorHistory prev curr ++ bytesFrom (noted colorHistory curr) curr 0 pixels)

theorem flushRun_eq (s : Encoder) :
    s.flushRun = { s with out := s.out ++ flushBytes s.runLength, runLength := 0 } := by
  obtain ⟨out, colorHistory, prevPixel, runLength⟩ := s
  cases runLength with
  | zero => simp [Encoder.flushRun, flushBytes]
  | succ run => simp [Encoder.flushRun, Encoder.push, flushBytes]

theorem encodePixel_next (s : Encoder) {curr : QoiPixel} (other : curr ≠ s.prevPixel) :
    s.encodePixel curr =
      { out := s.out ++ flushBytes s.runLength ++ pixelBytes s.colorHistory s.prevPixel curr
        colorHistory := noted s.colorHistory curr, prevPixel := curr, runLength := 0 } := by
  rw [Encoder.encodePixel, if_neg other, flushRun_eq]
  by_cases held : s.colorHistory.slot curr = curr
  · simp only [held, if_true, Encoder.push, pixelBytes, noted]
  · simp only [held, if_false, Encoder.push, pixelBytes, noted]

theorem foldl_encodePixel_out (s : Encoder) (pixels : List QoiPixel) :
    (pixels.foldl Encoder.encodePixel s).flushRun.out =
      s.out ++ bytesFrom s.colorHistory s.prevPixel s.runLength pixels := by
  induction pixels generalizing s with
  | nil => rw [List.foldl_nil, flushRun_eq, bytesFrom]
  | cons curr pixels ih =>
      rw [List.foldl_cons, ih, bytesFrom]
      by_cases same : curr = s.prevPixel
      · by_cases full : s.runLength + 1 = 62
        · simp [Encoder.encodePixel, same, full, Encoder.push]
        · simp [Encoder.encodePixel, same, full]
      · simp [encodePixel_next s same, same]

theorem encodePixel_prevPixel (s : Encoder) (curr : QoiPixel) : (s.encodePixel curr).prevPixel = curr := by
  by_cases same : curr = s.prevPixel
  · rw [Encoder.encodePixel, if_pos same, same]
    split <;> rfl
  · rw [encodePixel_next s same]

theorem slot_store (colorHistory : ColorHistory) (px other : QoiPixel) :
    (colorHistory.store px).slot other = if px.hash = other.hash then px else colorHistory.slot other := by
  exact Vector.getElem_set ..

theorem slot_store_self (colorHistory : ColorHistory) (px : QoiPixel) : (colorHistory.store px).slot px = px := by
  rw [slot_store, if_pos rfl]

theorem store_slot {colorHistory : ColorHistory} {px : QoiPixel} (held : colorHistory.slot px = px) :
    colorHistory.store px = colorHistory := by
  apply Vector.ext
  intro i inside
  rw [ColorHistory.store, Vector.getElem_set]
  split
  case isTrue same =>
      subst same
      exact held.symm
  case isFalse => rfl

theorem slot_noted (colorHistory : ColorHistory) (px : QoiPixel) : (noted colorHistory px).slot px = px := by
  unfold noted
  split
  case isTrue held => exact held
  case isFalse => exact slot_store_self colorHistory px

/-- Every admitted pixel that the first table holds, the second one holds. -/
def Agrees (admitted : QoiPixel → Prop) (encoder decoder : ColorHistory) : Prop :=
  ∀ px, admitted px → encoder.slot px = px → decoder.slot px = px

theorem agrees_noted {admitted : QoiPixel → Prop} {encoder decoder : ColorHistory}
    (agrees : Agrees admitted encoder decoder) (curr : QoiPixel) :
    Agrees admitted (noted encoder curr) (decoder.store curr) := by
  intro px admits held
  rw [slot_store]
  by_cases same : curr.hash = px.hash
  · have own : (noted encoder curr).slot px = curr := by
      have slots : (noted encoder curr).slot px = (noted encoder curr).slot curr := by
        simp only [ColorHistory.slot, same]
      rw [slots, slot_noted]
    rw [if_pos same, ← own, held]
  · rw [if_neg same]
    apply agrees px admits
    unfold noted at held
    split at held
    case isTrue => exact held
    case isFalse => rwa [slot_store, if_neg same] at held

theorem turns_of_turn {total : Nat} {byte : UInt8} {unread : List UInt8} {colorHistory : ColorHistory}
    {px : QoiPixel} {registers : List QoiPixel} {next : Decoder} (room : registers.length < total)
    (turn : (decoder (byte :: unread) colorHistory px registers).turn (total * 4) = some next) :
    Loop.Turns (Decoder.body total) (decoder (byte :: unread) colorHistory px registers) next := by
  apply Loop.Turns.one
  have goes : (decoder (byte :: unread) colorHistory px registers).pixelCount < total ∧
      (decoder (byte :: unread) colorHistory px registers).unread ≠ [] := ⟨room, List.cons_ne_nil byte unread⟩
  rw [Decoder.body, if_pos goes, turn]
  rfl

theorem encodeMiss_cons (prev curr : QoiPixel) : ∃ byte bytes, encodeMiss prev curr = byte :: bytes := by
  unfold encodeMiss
  dsimp only
  split_ifs <;> exact ⟨_, _, rfl⟩

section Following

variable {total : Nat} {decoderTable : ColorHistory} {prev : QoiPixel} {registers : List QoiPixel}

theorem turns_flush {run : Nat} (short : run ≤ 62) (held : 0 < run → decoderTable.slot prev = prev)
    (room : registers.length + run ≤ total) (unread : List UInt8) :
    Loop.Turns (Decoder.body total) (decoder (flushBytes run ++ unread) decoderTable prev registers)
      (decoder unread decoderTable prev (registers ++ List.replicate run prev)) := by
  cases run with
  | zero =>
      rw [List.replicate_zero, List.append_nil]
      exact Relation.ReflTransGen.refl
  | succ run =>
      have turn := turn_run unread decoderTable prev (Nat.succ_pos run) short room
      rw [store_slot (held (Nat.succ_pos run))] at turn
      exact turns_of_turn (by omega) turn

def decoded (encoderTable decoderTable : ColorHistory) (curr : QoiPixel) : QoiPixel :=
  if encoderTable.slot curr = curr then decoderTable.slot curr else curr

theorem turns_pixel (encoderTable : ColorHistory) (curr : QoiPixel) (room : registers.length < total)
    (unread : List UInt8) :
    Loop.Turns (Decoder.body total) (decoder (pixelBytes encoderTable prev curr ++ unread) decoderTable prev registers)
      (decoder unread (decoderTable.store (decoded encoderTable decoderTable curr))
        (decoded encoderTable decoderTable curr) (registers ++ [decoded encoderTable decoderTable curr])) := by
  unfold pixelBytes decoded
  split
  case isTrue => exact turns_of_turn room (turn_index unread decoderTable prev curr room)
  case isFalse =>
      have turn := turn_miss unread decoderTable prev curr room
      obtain ⟨byte, bytes, shape⟩ := encodeMiss_cons prev curr
      rw [shape] at turn ⊢
      exact turns_of_turn room turn

theorem turns_next (encoderTable : ColorHistory) {run : Nat} (short : run ≤ 62)
    (held : 0 < run → decoderTable.slot prev = prev) {curr : QoiPixel} (other : curr ≠ prev) (pixels : List QoiPixel)
    (room : registers.length + run < total) (unread : List UInt8) :
    Loop.Turns (Decoder.body total)
      (decoder (bytesFrom encoderTable prev run (curr :: pixels) ++ unread) decoderTable prev registers)
      (decoder (bytesFrom (noted encoderTable curr) curr 0 pixels ++ unread)
        (decoderTable.store (decoded encoderTable decoderTable curr)) (decoded encoderTable decoderTable curr)
        (registers ++ List.replicate run prev ++ [decoded encoderTable decoderTable curr])) := by
  rw [bytesFrom, if_neg other, List.append_assoc, List.append_assoc]
  apply Relation.ReflTransGen.trans (turns_flush short held (Nat.le_of_lt room) _)
  apply turns_pixel
  rw [List.length_append, List.length_replicate]
  exact room

end Following

/-- A relation between the two sides that lasts as long as admitted pixels come. -/
structure Lasting (related : ColorHistory → ColorHistory → QoiPixel → Prop) (admitted : QoiPixel → Prop) : Prop where
  held : ∀ encoderTable decoderTable prev, related encoderTable decoderTable prev → decoderTable.slot prev = prev
  next : ∀ encoderTable decoderTable prev curr, related encoderTable decoderTable prev → admitted curr →
    decoded encoderTable decoderTable curr = curr ∧ related (noted encoderTable curr) (decoderTable.store curr) curr

theorem turns_follow {related : ColorHistory → ColorHistory → QoiPixel → Prop} {admitted : QoiPixel → Prop}
    (lasting : Lasting related admitted) {total : Nat} (pixels later : List QoiPixel)
    (admits : ∀ px ∈ pixels, admitted px) {encoderTable decoderTable : ColorHistory} {prev : QoiPixel} {run : Nat}
    {registers : List QoiPixel} (start : related encoderTable decoderTable prev) (short : run < 62)
    (room : registers.length + run + pixels.length ≤ total) (unread : List UInt8) :
    ∃ encoderTable' decoderTable' prev' run' registers',
      Loop.Turns (Decoder.body total)
        (decoder (bytesFrom encoderTable prev run (pixels ++ later) ++ unread) decoderTable prev registers)
        (decoder (bytesFrom encoderTable' prev' run' later ++ unread) decoderTable' prev' registers') ∧
      related encoderTable' decoderTable' prev' ∧ run' < 62 ∧
      registers' ++ List.replicate run' prev' = registers ++ List.replicate run prev ++ pixels := by
  induction pixels generalizing encoderTable decoderTable prev run registers with
  | nil => exact ⟨_, _, _, _, _, Relation.ReflTransGen.refl, start, short, (List.append_nil _).symm⟩
  | cons curr pixels ih =>
      have rest : ∀ px ∈ pixels, admitted px := fun px member => admits px (List.mem_cons_of_mem curr member)
      rw [List.length_cons] at room
      by_cases same : curr = prev
      · subst same
        have longer : List.replicate run curr ++ [curr] = List.replicate (run + 1) curr :=
          List.replicate_succ'.symm
        by_cases full : run + 1 = 62
        · have now : registers.length + 62 ≤ total := by omega
          have after : (registers ++ List.replicate 62 curr).length + 0 + pixels.length ≤ total := by
            rw [List.length_append, List.length_replicate]
            omega
          have turn := turn_run (bytesFrom encoderTable curr 0 (pixels ++ later) ++ unread) decoderTable curr
            (Nat.succ_pos 61) (Nat.le_refl 62) now
          rw [store_slot (lasting.held _ _ _ start)] at turn
          obtain ⟨e, d, p, r, regs, turns, rel, small, all⟩ := ih rest start (by decide : 0 < 62) after
          refine ⟨e, d, p, r, regs, ?_, rel, small, ?_⟩
          · rw [List.cons_append, bytesFrom, if_pos rfl, if_pos full]
            exact Relation.ReflTransGen.trans (turns_of_turn (by omega) turn) turns
          · rw [all, List.replicate_zero, List.append_nil, ← full, ← longer]
            simp only [List.append_assoc, List.singleton_append]
        · have after : registers.length + (run + 1) + pixels.length ≤ total := by omega
          obtain ⟨e, d, p, r, regs, turns, rel, small, all⟩ := ih rest start (by omega : run + 1 < 62) after
          refine ⟨e, d, p, r, regs, ?_, rel, small, ?_⟩
          · rw [List.cons_append, bytesFrom, if_pos rfl, if_neg full]
            exact turns
          · rw [all, ← longer]
            simp only [List.append_assoc, List.singleton_append]
      · obtain ⟨right, related'⟩ := lasting.next _ _ _ curr start (admits curr List.mem_cons_self)
        have now : registers.length + run < total := by omega
        have after : (registers ++ List.replicate run prev ++ [curr]).length + 0 + pixels.length ≤ total := by
          simp only [List.length_append, List.length_replicate, List.length_singleton]
          omega
        have first := turns_next encoderTable (Nat.le_of_lt short) (fun _ => lasting.held _ _ _ start) same
          (pixels ++ later) now unread
        rw [right] at first
        obtain ⟨e, d, p, r, regs, turns, rel, small, all⟩ := ih rest related' (by decide : 0 < 62) after
        refine ⟨e, d, p, r, regs, Relation.ReflTransGen.trans first turns, rel, small, ?_⟩
        rw [all, List.replicate_zero, List.append_nil, List.append_assoc, List.singleton_append]

end KnowledgeAcquisition.Proof.Compress
