import KnowledgeAcquisition.Proof.Compress.Qoi

/-!
# Whole images

The repository's own decoder gives every image back. A decoder whose table begins as the published format says
gives it back unless opaque black is looked up in its slot before anything was put there.
-/

namespace KnowledgeAcquisition.Proof.Compress
open KnowledgeAcquisition.Compress Library

structure Further (s s' : Decoder) : Prop where
  unread : s'.unread.length < s.unread.length
  registers : s'.registers = s.registers

theorem readByte_further {s s' : Decoder} {byte : UInt8} (read : s.readByte = some (byte, s')) : Further s s' := by
  unfold Decoder.readByte at read
  cases rest : s.unread with
  | nil => simp [rest] at read
  | cons head tail =>
      rw [rest] at read
      obtain ⟨rfl, rfl⟩ := Prod.mk.inj (Option.some.inj read)
      exact ⟨by rw [rest]; exact Nat.lt_succ_self _, rfl⟩

theorem Further.read {s s' s'' : Decoder} {byte : UInt8} (further : Further s s')
    (read : s'.readByte = some (byte, s'')) : Further s s'' := by
  have next := readByte_further read
  exact ⟨Nat.lt_trans next.unread further.unread, next.registers.trans further.registers⟩

theorem turn_cases {capacity : Nat} {s s' : Decoder} (turn : s.turn capacity = some s') :
    ∃ s₁, Further s s₁ ∧ ((∃ px, s₁.emit capacity px = some s') ∨
      ∃ run s₂, Decoder.writeRun capacity run s₁ = some s₂ ∧ s' = s₂.store) := by
  simp only [Decoder.turn, Option.bind_eq_bind, Option.bind_eq_some_iff, Prod.exists] at turn
  obtain ⟨b1, s₁, first, turn⟩ := turn
  have further := readByte_further first
  split_ifs at turn
  · obtain ⟨⟨r, s₂⟩, red, turn⟩ := Option.bind_eq_some_iff.mp turn
    obtain ⟨⟨g, s₃⟩, green, turn⟩ := Option.bind_eq_some_iff.mp turn
    obtain ⟨⟨b, s₄⟩, blue, turn⟩ := Option.bind_eq_some_iff.mp turn
    exact ⟨s₄, ((further.read red).read green).read blue, .inl ⟨_, turn⟩⟩
  · obtain ⟨⟨r, s₂⟩, red, turn⟩ := Option.bind_eq_some_iff.mp turn
    obtain ⟨⟨g, s₃⟩, green, turn⟩ := Option.bind_eq_some_iff.mp turn
    obtain ⟨⟨b, s₄⟩, blue, turn⟩ := Option.bind_eq_some_iff.mp turn
    obtain ⟨⟨a, s₅⟩, alpha, turn⟩ := Option.bind_eq_some_iff.mp turn
    exact ⟨s₅, (((further.read red).read green).read blue).read alpha, .inl ⟨_, turn⟩⟩
  · obtain ⟨px, -, turn⟩ := Option.bind_eq_some_iff.mp turn
    exact ⟨s₁, further, .inl ⟨px, turn⟩⟩
  · exact ⟨s₁, further, .inl ⟨_, turn⟩⟩
  · obtain ⟨⟨b2, s₂⟩, second, turn⟩ := Option.bind_eq_some_iff.mp turn
    exact ⟨s₂, further.read second, .inl ⟨_, turn⟩⟩
  · obtain ⟨s₂, written, turn⟩ := Option.bind_eq_some_iff.mp turn
    exact ⟨s₁, further, .inr ⟨_, s₂, written, (Option.some.inj turn).symm⟩⟩

theorem emit_spec {capacity : Nat} {s s' : Decoder} {px : QoiPixel} (emitted : s.emit capacity px = some s') :
    s'.unread = s.unread ∧ s.registers <+: s'.registers := by
  obtain ⟨-, same⟩ := Option.ite_none_right_eq_some.mp emitted
  rw [← Option.some.inj same]
  exact ⟨rfl, List.prefix_append _ _⟩

theorem writeRun_spec {capacity run : Nat} {s s' : Decoder} (written : Decoder.writeRun capacity run s = some s') :
    s'.unread = s.unread ∧ s.registers <+: s'.registers := by
  induction run generalizing s with
  | zero =>
      obtain rfl := Option.some.inj written
      exact ⟨rfl, List.prefix_refl _⟩
  | succ run ih =>
      obtain ⟨next, first, rest⟩ := Option.bind_eq_some_iff.mp written
      obtain ⟨-, same⟩ := Option.ite_none_right_eq_some.mp first
      obtain ⟨unread, registers⟩ := ih rest
      rw [← Option.some.inj same] at unread registers
      exact ⟨unread, List.IsPrefix.trans (List.prefix_append _ _) registers⟩

theorem turn_spec {capacity : Nat} {s s' : Decoder} (turn : s.turn capacity = some s') :
    s'.unread.length < s.unread.length ∧ s.registers <+: s'.registers := by
  obtain ⟨s₁, further, ⟨px, emitted⟩ | ⟨run, s₂, written, rfl⟩⟩ := turn_cases turn
  · obtain ⟨unread, registers⟩ := emit_spec emitted
    exact ⟨unread ▸ further.unread, further.registers ▸ registers⟩
  · obtain ⟨unread, registers⟩ := writeRun_spec written
    exact ⟨unread ▸ further.unread, further.registers ▸ registers⟩

theorem body_spec {total : Nat} {s next : Decoder} (again : Decoder.body total s = some (.inl next)) :
    next.unread.length < s.unread.length ∧ s.registers <+: next.registers := by
  unfold Decoder.body at again
  split at again
  case isTrue =>
      obtain ⟨turned, turn, same⟩ := Option.map_eq_some_iff.mp again
      exact Sum.inl.inj same ▸ turn_spec turn
  case isFalse => simp at again

theorem registers_of_turns {total fuel : Nat} {s last result : Decoder}
    (turns : Loop.Turns (Decoder.body total) s last)
    (ran : Loop.run (Decoder.body total) fuel s = some result) : last.registers <+: result.registers := by
  obtain ⟨left, ran⟩ := Loop.run_after_turns turns ran
  have again : ∀ s next : Decoder, last.registers <+: s.registers → Decoder.body total s = some (.inl next) →
      last.registers <+: next.registers := fun s next before taken => before.trans (body_spec taken).2
  apply Loop.run_keeps again _ (List.prefix_refl _) ran
  intro s left before leaves
  unfold Decoder.body at leaves
  split at leaves
  case isTrue =>
      obtain ⟨turned, -, same⟩ := Option.map_eq_some_iff.mp leaves
      cases same
  case isFalse =>
      obtain rfl := Sum.inr.inj (Option.some.inj leaves)
      exact before

theorem body_full (unread : List UInt8) (colorHistory : ColorHistory) (px : QoiPixel) (registers : List QoiPixel) :
    Decoder.body registers.length (decoder unread colorHistory px registers) =
      some (.inr (decoder unread colorHistory px registers)) := by
  apply if_neg
  exact fun goes => Nat.lt_irrefl _ goes.1

theorem decode_of_turns {header bytes unread : List UInt8} (length : header.length = 14)
    {start last : ColorHistory} {px : QoiPixel} {registers : List QoiPixel}
    (turns : Loop.Turns (Decoder.body registers.length) (decoder bytes start {} [])
      (decoder unread last px registers)) :
    Decoder.decode start registers.length (header ++ bytes) = some (decoder unread last px registers) := by
  rw [Decoder.decode, List.drop_left' length]
  apply Loop.run_of_turns (I := fun _ => True) (fun _ _ _ again => ⟨trivial, (body_spec again).1⟩) trivial turns
    (body_full unread last px registers)
  rw [show (decoder bytes start {} []).unread = bytes from rfl, List.length_append]
  omega

def pixelsOf (image : Image) : List QoiPixel := (List.range (image.w * image.h)).map (image.load {})

theorem load_eq (image : Image) {prev : QoiPixel} (solid : image.channels = 4 ∨ prev.a = 255) (px : Nat) :
    image.load prev px = image.load {} px := by
  cases solid with
  | inl four => simp only [Image.load, four, if_true]
  | inr full => simp only [Image.load, full]

theorem foldl_load (image : Image) (indices : List Nat) (s : Encoder)
    (solid : image.channels = 4 ∨ s.prevPixel.a = 255) :
    indices.foldl (fun s px => s.encodePixel (image.load s.prevPixel px)) s =
      (indices.map (image.load {})).foldl Encoder.encodePixel s := by
  induction indices generalizing s with
  | nil => rfl
  | cons px indices ih =>
      rw [List.foldl_cons, List.map_cons, List.foldl_cons, load_eq image solid]
      apply ih
      rw [encodePixel_prevPixel]
      cases image.rgb with
      | inl three => exact Or.inr (by simp [Image.load, three])
      | inr four => exact Or.inl four

theorem header_length (image : Image) : image.header.length = 14 := rfl

theorem compress_eq (image : Image) : compressToQoiRuntime image =
    image.header ++ (bytesFrom ColorHistory.initial {} 0 (pixelsOf image) ++ endMarker) := by
  simp only [compressToQoiRuntime]
  rw [foldl_load image _ _ (Or.inr rfl), foldl_encodePixel_out, List.append_assoc]
  rfl

theorem pixelsOf_length (image : Image) : (pixelsOf image).length = image.w * image.h := by
  simp [pixelsOf]

/-! ## Tables in step -/

def InStep (encoderTable decoderTable : ColorHistory) (prev : QoiPixel) : Prop :=
  Agrees (fun _ => True) encoderTable decoderTable ∧ encoderTable.slot prev = prev

theorem inStep_lasting : Lasting InStep fun _ => True where
  held _ _ prev related := related.1 prev trivial related.2
  next encoderTable decoderTable prev curr related _ := by
    refine ⟨?_, agrees_noted related.1 curr, slot_noted encoderTable curr⟩
    unfold decoded
    split
    case isTrue hit => exact related.1 curr trivial hit
    case isFalse => rfl

theorem turns_inStep {total : Nat} (pixels : List QoiPixel) {encoderTable decoderTable : ColorHistory}
    {prev : QoiPixel} {run : Nat} {registers : List QoiPixel} (related : InStep encoderTable decoderTable prev)
    (short : run < 62) (room : registers.length + run + pixels.length ≤ total) (unread : List UInt8) :
    ∃ last px, Loop.Turns (Decoder.body total)
      (decoder (bytesFrom encoderTable prev run pixels ++ unread) decoderTable prev registers)
      (decoder unread last px (registers ++ List.replicate run prev ++ pixels)) := by
  obtain ⟨e, d, p, r, regs, turns, rel, small, all⟩ :=
    turns_follow inStep_lasting pixels [] (fun _ _ => trivial) related short room unread
  have length := congrArg List.length all
  simp only [List.length_append, List.length_replicate] at length
  have flush := turns_flush (Nat.le_of_lt small) (fun _ => inStep_lasting.held e d p rel)
    (show regs.length + r ≤ total by omega) unread
  rw [all] at flush
  rw [List.append_nil] at turns
  exact ⟨d, p, Relation.ReflTransGen.trans turns flush⟩

theorem slot_initial (px : QoiPixel) : ColorHistory.initial.slot px = {} := Vector.getElem_replicate ..

theorem inStep_initial : InStep ColorHistory.initial ColorHistory.initial {} :=
  ⟨fun _ _ held => held, slot_initial {}⟩

theorem decode_compress (image : Image) : ∃ last px,
    Decoder.decode ColorHistory.initial (image.w * image.h) (compressToQoiRuntime image) =
      some (decoder endMarker last px (pixelsOf image)) := by
  have room : ([] : List QoiPixel).length + 0 + (pixelsOf image).length ≤ (pixelsOf image).length := by simp
  obtain ⟨last, px, turns⟩ := turns_inStep (pixelsOf image) inStep_initial (by decide) room endMarker
  refine ⟨last, px, ?_⟩
  rw [compress_eq, ← pixelsOf_length]
  exact decode_of_turns (header_length image) turns

theorem buffer_decoder (unread : List UInt8) (colorHistory : ColorHistory) (px : QoiPixel)
    (registers : List QoiPixel) :
    (decoder unread colorHistory px registers).buffer registers.length = registers.flatMap rgbx := by
  simp only [Decoder.buffer, decoder]
  rw [rgbx_length, Nat.sub_self, List.replicate_zero, List.append_nil]

theorem decompress_compress (image : Image) : ∃ buffer s,
    decompressQoiToBuffer image.w image.h (compressToQoiRuntime image) = some (buffer, s) ∧
      s.pixelCount = image.w * image.h ∧ s.unread = endMarker ∧
      buffer = (List.range (image.w * image.h)).flatMap (fun px =>
        [image.rawPixels.getD (px * image.channels) 0, image.rawPixels.getD (px * image.channels + 1) 0,
         image.rawPixels.getD (px * image.channels + 2) 0, 0xFF]) ∧
      (image.channels = 4 → s.registers.map QoiPixel.a =
        (List.range (image.w * image.h)).map fun px => image.rawPixels.getD (px * image.channels + 3) 0) := by
  obtain ⟨last, px, decoded⟩ := decode_compress image
  refine ⟨(pixelsOf image).flatMap rgbx, decoder endMarker last px (pixelsOf image), ?_, ?_, rfl, ?_, ?_⟩
  · rw [decompressQoiToBuffer, decoded, Option.map_some, ← pixelsOf_length, buffer_decoder]
  · exact pixelsOf_length image
  · rw [pixelsOf, List.flatMap_map]
    rfl
  · intro four
    simp only [decoder, pixelsOf, List.map_map]
    apply List.map_congr_left
    intro index _
    simp only [Function.comp, Image.load, four, if_true]

/-! ## A table that begins transparent -/

def transparent : ColorHistory := Vector.replicate 64 ⟨0, 0, 0, 0⟩

def black : QoiPixel := {}

theorem slot_transparent (px : QoiPixel) : transparent.slot px = ⟨0, 0, 0, 0⟩ := Vector.getElem_replicate ..

theorem slot_congr (colorHistory : ColorHistory) {px other : QoiPixel} (same : px.hash = other.hash) :
    colorHistory.slot px = colorHistory.slot other := by
  simp only [ColorHistory.slot, same]

theorem slot_noted_of_ne (colorHistory : ColorHistory) {px other : QoiPixel} (apart : px.hash ≠ other.hash) :
    (noted colorHistory px).slot other = colorHistory.slot other := by
  unfold noted
  split
  case isTrue => rfl
  case isFalse => rw [slot_store, if_neg apart]

/-- Nothing was put into the slot of opaque black yet. Up to it the tables agree. -/
structure Apart (encoderTable decoderTable : ColorHistory) (prev : QoiPixel) : Prop where
  agrees : Agrees (· ≠ black) encoderTable decoderTable
  known : encoderTable.slot prev = prev
  elsewhere : prev.hash ≠ black.hash
  encoder : encoderTable.slot black = black
  decoder : decoderTable.slot black = ⟨0, 0, 0, 0⟩

theorem ne_black {px : QoiPixel} (elsewhere : px.hash ≠ black.hash) : px ≠ black :=
  fun same => elsewhere (congrArg QoiPixel.hash same)

theorem apart_lasting : Lasting Apart fun px => px.hash ≠ black.hash where
  held _ _ prev related := related.agrees prev (ne_black related.elsewhere) related.known
  next encoderTable decoderTable prev curr related elsewhere := by
    refine ⟨?_, agrees_noted related.agrees curr, slot_noted encoderTable curr, elsewhere, ?_, ?_⟩
    · unfold decoded
      split
      case isTrue hit => exact related.agrees curr (ne_black elsewhere) hit
      case isFalse => rfl
    · rw [slot_noted_of_ne encoderTable elsewhere, related.encoder]
    · rw [slot_store, if_neg elsewhere, related.decoder]

theorem inStep_of_slot_taken {encoderTable decoderTable : ColorHistory}
    (agrees : Agrees (· ≠ black) encoderTable decoderTable) {curr : QoiPixel} (taken : curr.hash = black.hash)
    (other : curr ≠ black) : InStep (noted encoderTable curr) (decoderTable.store curr) curr := by
  refine ⟨?_, slot_noted encoderTable curr⟩
  intro px _ held
  by_cases dark : px = black
  · rw [dark, slot_congr _ taken.symm, slot_noted] at held
    exact absurd held other
  · exact agrees_noted agrees curr px dark held

theorem agrees_initial : Agrees (· ≠ black) ColorHistory.initial transparent :=
  fun px other held => absurd ((slot_initial px).symm.trans held).symm other

theorem decoded_miss {encoderTable : ColorHistory} (decoderTable : ColorHistory) {curr : QoiPixel}
    (missed : encoderTable.slot curr ≠ curr) : decoded encoderTable decoderTable curr = curr :=
  if_neg missed

theorem inStep_black : InStep ColorHistory.initial (transparent.store black) black := by
  refine ⟨?_, slot_initial black⟩
  intro px _ held
  rw [← held, slot_initial]
  exact slot_store_self transparent black

theorem turns_first_run {total run : Nat} (pixels : List QoiPixel) (positive : 0 < run) (short : run ≤ 62)
    (room : run + pixels.length ≤ total) (unread : List UInt8) :
    ∃ last px, Loop.Turns (Decoder.body total)
      (decoder (Encoder.runByte run :: (bytesFrom ColorHistory.initial black 0 pixels ++ unread)) transparent black [])
      (decoder unread last px (List.replicate run black ++ pixels)) := by
  have fits : ([] : List QoiPixel).length + run ≤ total := by
    rw [List.length_nil]
    omega
  have after : (List.replicate run black).length + 0 + pixels.length ≤ total := by
    rw [List.length_replicate]
    omega
  have turn := turn_run (bytesFrom ColorHistory.initial black 0 pixels ++ unread) transparent black positive short fits
  obtain ⟨last, px, turns⟩ := turns_inStep pixels inStep_black (by decide : 0 < 62) after unread
  rw [List.replicate_zero, List.append_nil] at turns
  exact ⟨last, px, Relation.ReflTransGen.trans (turns_of_turn (by omega) turn) turns⟩

theorem turns_black {total run : Nat} (pixels : List QoiPixel) (positive : 0 < run) (short : run < 62)
    (room : run + pixels.length ≤ total) (unread : List UInt8) :
    ∃ last px, Loop.Turns (Decoder.body total)
      (decoder (bytesFrom ColorHistory.initial black run pixels ++ unread) transparent black [])
      (decoder unread last px (List.replicate run black ++ pixels)) := by
  induction pixels generalizing run with
  | nil =>
      rw [bytesFrom, flushBytes, if_pos positive]
      exact turns_first_run [] positive (Nat.le_of_lt short) room unread
  | cons curr pixels ih =>
      by_cases same : curr = black
      · subst same
        have longer : List.replicate run black ++ black :: pixels = List.replicate (run + 1) black ++ pixels := by
          rw [List.replicate_succ', List.append_assoc, List.singleton_append]
        rw [List.length_cons] at room
        rw [longer, bytesFrom, if_pos rfl]
        by_cases full : run + 1 = 62
        · rw [if_pos full, full]
          exact turns_first_run pixels (by decide) (Nat.le_refl 62) (by omega) unread
        · rw [if_neg full]
          exact ih (Nat.succ_pos run) (by omega) (by omega)
      · have split : bytesFrom ColorHistory.initial black run (curr :: pixels) =
            Encoder.runByte run :: bytesFrom ColorHistory.initial black 0 (curr :: pixels) := by
          rw [bytesFrom, bytesFrom, if_neg same, if_neg same, flushBytes, if_pos positive]
          rfl
        rw [split]
        exact turns_first_run (curr :: pixels) positive (Nat.le_of_lt short) room unread

/-- Opaque black comes first in the image, or something was put into its slot before. -/
def SlotTaken (pixels : List QoiPixel) : Prop :=
  ∀ before after, pixels = before ++ black :: after → before = [] ∨ ∃ px ∈ before, px.hash = black.hash

theorem first_in_slot (pixels : List QoiPixel) : (∀ px ∈ pixels, px.hash ≠ black.hash) ∨
    ∃ before px after, pixels = before ++ px :: after ∧ (∀ other ∈ before, other.hash ≠ black.hash) ∧
      px.hash = black.hash := by
  cases found : pixels.find? (fun px => px.hash = black.hash) with
  | none =>
      refine Or.inl fun px member same => ?_
      exact absurd (decide_eq_true same) (List.find?_eq_none.mp found px member)
  | some px =>
      obtain ⟨own, before, after, split, none⟩ := List.find?_eq_some_iff_append.mp found
      refine Or.inr ⟨before, px, after, split, ?_, of_decide_eq_true own⟩
      intro other member same
      have denied := none other member
      simp [same] at denied

theorem turns_first {total : Nat} (positive : 0 < total) {first : QoiPixel} (bright : first ≠ black)
    (pixels : List QoiPixel) (unread : List UInt8) : Loop.Turns (Decoder.body total)
      (decoder (bytesFrom ColorHistory.initial black 0 (first :: pixels) ++ unread) transparent black [])
      (decoder (bytesFrom (noted ColorHistory.initial first) first 0 pixels ++ unread) (transparent.store first) first
        [first]) := by
  have missed : ColorHistory.initial.slot first ≠ first :=
    fun held => bright ((slot_initial first).symm.trans held).symm
  have held : 0 < 0 → transparent.slot black = black := fun none => absurd none (Nat.lt_irrefl 0)
  have room : ([] : List QoiPixel).length + 0 < total := positive
  have turns := turns_next ColorHistory.initial (Nat.zero_le 62) held bright pixels room unread
  rw [decoded_miss transparent missed] at turns
  exact turns

theorem apart_first {first : QoiPixel} (elsewhere : first.hash ≠ black.hash) :
    Apart (noted ColorHistory.initial first) (transparent.store first) first where
  agrees := agrees_noted agrees_initial first
  known := slot_noted ColorHistory.initial first
  elsewhere := elsewhere
  encoder := by rw [slot_noted_of_ne _ elsewhere, slot_initial]; rfl
  decoder := by rw [slot_store, if_neg elsewhere, slot_transparent]

theorem turns_apart {total : Nat} {first : QoiPixel} (before later : List QoiPixel)
    (elsewhere : ∀ px ∈ first :: before, px.hash ≠ black.hash) (room : (first :: before).length ≤ total)
    (unread : List UInt8) :
    ∃ encoderTable decoderTable prev run registers, Loop.Turns (Decoder.body total)
        (decoder (bytesFrom ColorHistory.initial black 0 (first :: (before ++ later)) ++ unread) transparent black [])
        (decoder (bytesFrom encoderTable prev run later ++ unread) decoderTable prev registers) ∧
      Apart encoderTable decoderTable prev ∧ run < 62 ∧
      registers ++ List.replicate run prev = first :: before := by
  have here : first.hash ≠ black.hash := elsewhere first List.mem_cons_self
  have rest : ∀ px ∈ before, px.hash ≠ black.hash := fun px member => elsewhere px (List.mem_cons_of_mem first member)
  rw [List.length_cons] at room
  have after : [first].length + 0 + before.length ≤ total := by
    simp only [List.length_singleton]
    omega
  obtain ⟨e, d, p, r, regs, turns, apart, small, all⟩ :=
    turns_follow apart_lasting before later rest (apart_first here) (by decide : 0 < 62) after unread
  refine ⟨e, d, p, r, regs, ?_, apart, small, all⟩
  exact Relation.ReflTransGen.trans (turns_first (by omega) (ne_black here) _ unread) turns

theorem turns_bright {first curr : QoiPixel} (before after : List QoiPixel)
    (elsewhere : ∀ px ∈ first :: before, px.hash ≠ black.hash) (own : curr.hash = black.hash) (bright : curr ≠ black)
    (unread : List UInt8) :
    ∃ last px, Loop.Turns (Decoder.body (first :: (before ++ curr :: after)).length)
      (decoder (bytesFrom ColorHistory.initial black 0 (first :: (before ++ curr :: after)) ++ unread) transparent
        black [])
      (decoder unread last px (first :: (before ++ curr :: after))) := by
  have room : (first :: before).length ≤ (first :: (before ++ curr :: after)).length := by simp
  obtain ⟨e, d, p, r, regs, turns, apart, small, all⟩ := turns_apart before (curr :: after) elsewhere room unread
  have length := congrArg List.length all
  simp only [List.length_append, List.length_replicate, List.length_cons] at length
  have missed : e.slot curr ≠ curr := by
    rw [slot_congr e own, apart.encoder]
    exact bright.symm
  have other : curr ≠ p := fun same => apart.elsewhere (same ▸ own)
  have now : regs.length + r < (first :: (before ++ curr :: after)).length := by
    simp only [List.length_cons, List.length_append]
    omega
  have next := turns_next e (Nat.le_of_lt small) (fun _ => apart_lasting.held e d p apart) other after now unread
  rw [decoded_miss d missed, all] at next
  have later : (first :: before ++ [curr]).length + 0 + after.length ≤
      (first :: (before ++ curr :: after)).length := by
    simp only [List.length_cons, List.length_append, List.length_nil]
    omega
  obtain ⟨last, px, rest⟩ := turns_inStep after (inStep_of_slot_taken apart.agrees own bright) (by decide : 0 < 62)
    later unread
  refine ⟨last, px, ?_⟩
  rw [List.replicate_zero, List.append_nil, List.append_assoc] at rest
  exact Relation.ReflTransGen.trans turns (Relation.ReflTransGen.trans next rest)

theorem turns_dark {first : QoiPixel} (before after : List QoiPixel)
    (elsewhere : ∀ px ∈ first :: before, px.hash ≠ black.hash) (unread : List UInt8) :
    ∃ rest last, Loop.Turns (Decoder.body (first :: (before ++ black :: after)).length)
      (decoder (bytesFrom ColorHistory.initial black 0 (first :: (before ++ black :: after)) ++ unread) transparent
        black [])
      (decoder rest last ⟨0, 0, 0, 0⟩ (first :: before ++ [⟨0, 0, 0, 0⟩])) := by
  have room : (first :: before).length ≤ (first :: (before ++ black :: after)).length := by simp
  obtain ⟨e, d, p, r, regs, turns, apart, small, all⟩ := turns_apart before (black :: after) elsewhere room unread
  have length := congrArg List.length all
  simp only [List.length_append, List.length_replicate, List.length_cons] at length
  have wrong : decoded e d black = ⟨0, 0, 0, 0⟩ := by
    rw [decoded, if_pos apart.encoder, apart.decoder]
  have other : black ≠ p := fun same => apart.elsewhere (same ▸ rfl)
  have now : regs.length + r < (first :: (before ++ black :: after)).length := by
    simp only [List.length_cons, List.length_append]
    omega
  have next := turns_next e (Nat.le_of_lt small) (fun _ => apart_lasting.held e d p apart) other after now unread
  rw [wrong, all] at next
  exact ⟨_, _, Relation.ReflTransGen.trans turns next⟩

theorem turns_slotTaken {pixels : List QoiPixel} (taken : SlotTaken pixels) (unread : List UInt8) :
    ∃ last px, Loop.Turns (Decoder.body pixels.length)
      (decoder (bytesFrom ColorHistory.initial black 0 pixels ++ unread) transparent black [])
      (decoder unread last px pixels) := by
  cases pixels with
  | nil => exact ⟨transparent, black, Relation.ReflTransGen.refl⟩
  | cons first pixels =>
      by_cases dark : first = black
      · subst dark
        rw [bytesFrom, if_pos rfl, if_neg (by decide)]
        exact turns_black pixels (by decide) (by decide) (by rw [List.length_cons]; omega) unread
      · cases first_in_slot (first :: pixels) with
        | inl none =>
            obtain ⟨e, d, p, r, regs, turns, apart, small, all⟩ := turns_apart pixels [] none (Nat.le_refl _) unread
            have length := congrArg List.length all
            simp only [List.length_append, List.length_replicate] at length
            have flush := turns_flush (Nat.le_of_lt small) (fun _ => apart_lasting.held e d p apart)
              (Nat.le_of_eq length) unread
            rw [all] at flush
            rw [List.append_nil] at turns
            exact ⟨d, p, Relation.ReflTransGen.trans turns flush⟩
        | inr some =>
            obtain ⟨before, curr, after, split, elsewhere, own⟩ := some
            cases before with
            | nil =>
                obtain ⟨rfl, rfl⟩ := List.cons.inj split
                have room : [first].length + 0 + pixels.length ≤ (first :: pixels).length := by simp; omega
                obtain ⟨last, px, turns⟩ := turns_inStep pixels (inStep_of_slot_taken agrees_initial own dark)
                  (by decide : 0 < 62) room unread
                exact ⟨last, px, Relation.ReflTransGen.trans (turns_first (Nat.succ_pos _) dark pixels unread) turns⟩
            | cons head before =>
                obtain ⟨rfl, rfl⟩ := List.cons.inj split
                have bright : curr ≠ black := by
                  intro same
                  cases taken (first :: before) after (by rw [same]; rfl) with
                  | inl none => cases none
                  | inr earlier =>
                      obtain ⟨px, member, slot⟩ := earlier
                      exact elsewhere px member slot
                exact turns_bright before after elsewhere own bright unread

theorem ofBigEndian_bigEndian {number : Nat} (small : number ≤ 2147483647) :
    ofBigEndian (Image.bigEndian number) = number := by
  simp only [ofBigEndian, Image.bigEndian, List.foldl_cons, List.foldl_nil, UInt8.toNat_ofNat',
    Nat.shiftRight_eq_div_pow]
  omega

theorem standardDecode_eq (image : Image) : standardDecode (compressToQoiRuntime image) =
    (Decoder.decode transparent (image.w * image.h) (compressToQoiRuntime image)).map Decoder.registers := by
  have front : (compressToQoiRuntime image).take 4 = Image.magic := by
    rw [compress_eq]
    rfl
  have width : ((compressToQoiRuntime image).drop 4).take 4 = Image.bigEndian image.w := by
    rw [compress_eq]
    rfl
  have height : ((compressToQoiRuntime image).drop 8).take 4 = Image.bigEndian image.h := by
    rw [compress_eq]
    rfl
  simp only [standardDecode, front, if_true, width, height, ofBigEndian_bigEndian image.wInt,
    ofBigEndian_bigEndian image.hInt]
  rfl

/-- The published decoder gives the original pixels, and their alpha where the image has it. -/
def StandardYields (image : Image) : Prop :=
  ∃ pixels, standardDecode (compressToQoiRuntime image) = some pixels ∧
    pixels.map (fun px => (px.r, px.g, px.b)) = (pixelsOf image).map (fun px => (px.r, px.g, px.b)) ∧
    (image.channels = 4 → pixels.map QoiPixel.a = (pixelsOf image).map QoiPixel.a)

theorem standardYields_of_slotTaken {image : Image} (taken : SlotTaken (pixelsOf image)) : StandardYields image := by
  obtain ⟨last, px, turns⟩ := turns_slotTaken taken endMarker
  refine ⟨pixelsOf image, ?_, rfl, fun _ => rfl⟩
  rw [standardDecode_eq, compress_eq, ← pixelsOf_length]
  exact congrArg (Option.map Decoder.registers) (decode_of_turns (header_length image) turns)

theorem slotTaken_of_standardYields {image : Image} (alpha : image.channels = 4) (yields : StandardYields image) :
    SlotTaken (pixelsOf image) := by
  intro before after split
  obtain ⟨pixels, decoded, -, alphas⟩ := yields
  apply Classical.byContradiction
  intro untaken
  have elsewhere : ∀ px ∈ before, px.hash ≠ black.hash :=
    fun px member same => untaken (Or.inr ⟨px, member, same⟩)
  cases before with
  | nil => exact untaken (Or.inl rfl)
  | cons first before =>
      -- The decoder writes a transparent pixel where the image has opaque black.
      obtain ⟨rest, last, turns⟩ := turns_dark before after elsewhere endMarker
      rw [standardDecode_eq, compress_eq, ← pixelsOf_length] at decoded
      obtain ⟨result, ran, rfl⟩ := Option.map_eq_some_iff.mp decoded
      rw [Decoder.decode, List.drop_left' (header_length image), split] at ran
      have start := registers_of_turns turns ran
      obtain ⟨more, whole⟩ := start
      have written := alphas alpha
      rw [split, ← whole] at written
      have compared := congrArg (fun list => list[(first :: before).length]?) written
      simp [decoder, black] at compared

theorem standardYields_iff (image : Image) :
    (SlotTaken (pixelsOf image) → StandardYields image) ∧
      (image.channels = 4 → StandardYields image → SlotTaken (pixelsOf image)) :=
  ⟨standardYields_of_slotTaken, slotTaken_of_standardYields⟩

def darkImage : Image where
  w := 2
  h := 1
  channels := 4
  rawPixels := [1, 2, 3, 255, 0, 0, 0, 255]
  wInt := by decide
  hInt := by decide
  rgb := Or.inr rfl
  size := rfl

theorem standard_decoder_loses_black :
    standardDecode (compressToQoiRuntime darkImage) = some [⟨1, 2, 3, 255⟩, ⟨0, 0, 0, 0⟩] ∧
      ¬ StandardYields darkImage := by
  have decoded : standardDecode (compressToQoiRuntime darkImage) = some [⟨1, 2, 3, 255⟩, ⟨0, 0, 0, 0⟩] := by
    decide +kernel
  refine ⟨decoded, ?_⟩
  rintro ⟨pixels, result, -, alphas⟩
  rw [decoded] at result
  have written := alphas rfl
  rw [← Option.some.inj result] at written
  revert written
  decide

end KnowledgeAcquisition.Proof.Compress
