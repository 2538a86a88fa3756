import KnowledgeAcquisition.Compress.Rle
import KnowledgeAcquisition.Library.RunLength
import Mathlib.Data.List.GetD
import Mathlib.Data.List.TakeDrop

/-!
# Run-length encoding of an image

The tokens that are emitted stand for the pixels passed, and a run is broken off only when it is over or full.
-/

namespace KnowledgeAcquisition.Proof.Compress
open KnowledgeAcquisition.Compress Library RunLength

def pixelAt (rawPixels : List UInt8) (channels i : Nat) : List UInt8 := (rawPixels.drop (i * channels)).take channels

def tokenBytes (token : Nat × List UInt8) : List UInt8 := UInt8.ofNat token.1 :: token.2

theorem flatten_pixels (rawPixels : List UInt8) (channels total : Nat) :
    ((List.range total).map (pixelAt rawPixels channels)).flatten = rawPixels.take (total * channels) := by
  induction total with
  | zero => simp
  | succ total ih =>
      rw [List.range_succ, List.map_append, List.flatten_append, ih, List.map_singleton, List.flatten_singleton,
        pixelAt, Nat.succ_mul, List.take_add]

theorem eq_of_flatten_eq {size : Nat} (positive : 0 < size) {blocks others : List (List UInt8)}
    (length : ∀ block ∈ blocks, block.length = size) (length' : ∀ block ∈ others, block.length = size)
    (same : blocks.flatten = others.flatten) : blocks = others := by
  induction blocks generalizing others with
  | nil =>
      cases others with
      | nil => rfl
      | cons other others =>
          have size' := congrArg List.length same
          simp [length' other List.mem_cons_self] at size'
          omega
  | cons block blocks ih =>
      cases others with
      | nil =>
          have size' := congrArg List.length same
          simp [length block List.mem_cons_self] at size'
          omega
      | cons other others =>
          rw [List.flatten_cons, List.flatten_cons] at same
          have equal : block.length = other.length := by
            rw [length block List.mem_cons_self, length' other List.mem_cons_self]
          obtain ⟨first, rest⟩ := List.append_inj same equal
          rw [first, ih (fun b member => length b (List.mem_cons_of_mem _ member))
            (fun b member => length' b (List.mem_cons_of_mem _ member)) rest]

section Buffer

variable {rawPixels : List UInt8} {total channels : Nat} (size : rawPixels.length = total * channels)

include size

theorem pixelAt_length {i : Nat} (inside : i < total) : (pixelAt rawPixels channels i).length = channels := by
  have whole : (i + 1) * channels ≤ total * channels := Nat.mul_le_mul_right _ inside
  rw [Nat.succ_mul] at whole
  rw [pixelAt, List.length_take, List.length_drop, size]
  omega

theorem read_pixel {i c : Nat} (inside : i < total) (own : c < channels) :
    rawPixels[i * channels + c]? = some ((pixelAt rawPixels channels i).getD c 0) := by
  have here : c < (pixelAt rawPixels channels i).length := by
    rw [pixelAt_length size inside]
    exact own
  rw [List.getD_eq_getElem?_getD, List.getElem?_eq_getElem here, Option.getD_some, ← List.getElem?_eq_getElem here,
    pixelAt, List.getElem?_take_of_lt own, List.getElem?_drop]

theorem colorsMatch_eq {i j : Nat} (inside : i < total) (inside' : j < total) {cs : List Nat}
    (own : ∀ c ∈ cs, c < channels) : Rle.colorsMatch rawPixels (i * channels) (j * channels) cs =
      some (cs.all fun c => (pixelAt rawPixels channels i).getD c 0 == (pixelAt rawPixels channels j).getD c 0) := by
  induction cs with
  | nil => rfl
  | cons c cs ih =>
      have c_own := own c List.mem_cons_self
      rw [Rle.colorsMatch, read_pixel size inside c_own, read_pixel size inside' c_own,
        ih fun other member => own other (List.mem_cons_of_mem _ member), List.all_cons]
      generalize (pixelAt rawPixels channels i).getD c 0 = current
      generalize (pixelAt rawPixels channels j).getD c 0 = next
      by_cases same : current = next
      · simp [same]
      · simp [same, beq_eq_false_iff_ne.mpr same]

theorem colorsMatch_range {i j : Nat} (inside : i < total) (inside' : j < total) :
    Rle.colorsMatch rawPixels (i * channels) (j * channels) (List.range channels) =
      some (decide (pixelAt rawPixels channels i = pixelAt rawPixels channels j)) := by
  have length := pixelAt_length size inside
  have length' := pixelAt_length size inside'
  rw [colorsMatch_eq size inside inside' fun c member => List.mem_range.mp member, Option.some.injEq,
    Bool.eq_iff_iff, List.all_eq_true, decide_eq_true_iff]
  constructor
  · intro all
    apply List.ext_getElem (by rw [length, length'])
    intro c here here'
    have same := all c (List.mem_range.mpr (length ▸ here))
    rwa [beq_iff_eq, List.getD_eq_getElem _ _ here, List.getD_eq_getElem _ _ here'] at same
  · intro same c _
    rw [same, beq_self_eq_true]

theorem mapM_range {i : Nat} (inside : i < total) :
    (List.range channels).mapM (fun c => rawPixels[i * channels + c]?) = some (pixelAt rawPixels channels i) := by
  have reads : ∀ cs : List Nat, (∀ c ∈ cs, c < channels) →
      cs.mapM (fun c => rawPixels[i * channels + c]?) = some (cs.map fun c => (pixelAt rawPixels channels i).getD c 0) := by
    intro cs
    induction cs with
    | nil => exact fun _ => rfl
    | cons c cs ih =>
        intro own
        rw [List.mapM_cons, read_pixel size inside (own c List.mem_cons_self),
          ih fun other member => own other (List.mem_cons_of_mem _ member)]
        rfl
  have length := pixelAt_length size inside
  rw [reads _ fun c member => List.mem_range.mp member, Option.some.injEq]
  apply List.ext_getElem (by simp [length])
  intro c _ here
  rw [List.getElem_map, List.getElem_range, List.getD_eq_getElem _ _ here]

omit size in
variable (rawPixels total channels) in
structure RunFrom (i length : Nat) : Prop where
  positive : 1 ≤ length
  fits : length ≤ 255
  inside : i + length ≤ total
  same : ∀ k < length, pixelAt rawPixels channels (i + k) = pixelAt rawPixels channels i

omit size in
theorem RunFrom.one {i : Nat} (inside : i < total) : RunFrom rawPixels total channels i 1 := by
  refine ⟨Nat.le_refl 1, by decide, inside, ?_⟩
  intro k zero
  rw [Nat.lt_one_iff.mp zero, Nat.add_zero]

omit size in
theorem RunFrom.succ {i length : Nat} (run : RunFrom rawPixels total channels i length) (fits : length < 255)
    (inside : i + length < total) (next : pixelAt rawPixels channels (i + length) = pixelAt rawPixels channels i) :
    RunFrom rawPixels total channels i (length + 1) := by
  refine ⟨Nat.le_add_left 1 length, fits, inside, ?_⟩
  intro k less
  rcases Nat.lt_succ_iff_lt_or_eq.mp less with before | rfl
  · exact run.same k before
  · exact next

omit size in
theorem RunFrom.pixels {i length : Nat} (run : RunFrom rawPixels total channels i length) :
    (List.range' i length).map (pixelAt rawPixels channels) =
      List.replicate length (pixelAt rawPixels channels i) := by
  apply List.eq_replicate_iff.mpr
  refine ⟨by simp, ?_⟩
  intro pixel member
  obtain ⟨j, passed, rfl⟩ := List.mem_map.mp member
  obtain ⟨k, less, rfl⟩ := List.mem_range'.mp passed
  rw [Nat.one_mul]
  exact run.same k less

theorem extendRun_total {i : Nat} (inside : i < total) : ∃ length : UInt8,
    Loop.run (Rle.extendRun rawPixels total channels i) 256 1 = some length ∧
    RunFrom rawPixels total channels i length.toNat ∧
    (i + length.toNat < total → pixelAt rawPixels channels (i + length.toNat) = pixelAt rawPixels channels i →
      length.toNat = 255) := by
  apply Loop.run_total (I := fun k (length : UInt8) =>
    RunFrom rawPixels total channels i length.toNat ∧ k = 255 - length.toNat) _ 256 254 1 ⟨.one inside, rfl⟩ (by decide)
  rintro k length ⟨run, rfl⟩
  by_cases guard : i + length.toNat < total ∧ length < 255
  · have below : length.toNat < 255 := UInt8.lt_iff_toNat_lt.mp guard.2
    by_cases next : pixelAt rawPixels channels i = pixelAt rawPixels channels (i + length.toNat)
    · have grown : (length + 1).toNat = length.toNat + 1 := by
        rw [UInt8.toNat_add]
        exact Nat.mod_eq_of_lt (Nat.succ_lt_succ below)
      refine .inl ⟨length + 1, 255 - (length + 1).toNat, ?_, ⟨?_, rfl⟩, by omega⟩
      · rw [Rle.extendRun, if_pos guard, colorsMatch_range size inside guard.1]
        simp [next]
      · rw [grown]
        exact run.succ below guard.1 next.symm
    · refine .inr ⟨length, ?_, run, fun _ same => absurd same.symm next⟩
      rw [Rle.extendRun, if_pos guard, colorsMatch_range size inside guard.1]
      simp [next]
  · refine .inr ⟨length, by rw [Rle.extendRun, if_neg guard], run, fun before _ => ?_⟩
    have full : ¬ length.toNat < 255 := fun below => guard ⟨before, UInt8.lt_iff_toNat_lt.mpr below⟩
    have fits := run.fits
    omega

omit size in
variable (rawPixels total channels) in
/-- The tokens emitted stand for the pixels before `s.i`, and the last run does not go on unless it is full. -/
structure Emitted (tokens : List (Nat × List UInt8)) (s : Rle.State) : Prop where
  inside : s.i ≤ total
  bytes : s.packedPayload = tokens.flatMap tokenBytes
  full : Full 255 tokens
  pixels : expand tokens = (List.range s.i).map (pixelAt rawPixels channels)
  ended : s.i < total → ∀ last ∈ tokens.getLast?, last.2 = pixelAt rawPixels channels s.i → last.1 = 255

theorem packRun_step {tokens : List (Nat × List UInt8)} {s : Rle.State} (packed : Emitted rawPixels total channels tokens s)
    (before : s.i < total) : ∃ next later, Rle.packRun rawPixels total channels s = some (.inl next) ∧ s.i < next.i ∧
      Emitted rawPixels total channels later next := by
  obtain ⟨length, extended, run, ended⟩ := extendRun_total size before
  have positive := run.positive
  refine ⟨{ i := s.i + length.toNat, packedPayload := s.packedPayload ++ length :: pixelAt rawPixels channels s.i },
    tokens ++ [(length.toNat, pixelAt rawPixels channels s.i)], ?_, Nat.lt_add_of_pos_right positive, ?_⟩
  · rw [Rle.packRun, if_pos before, extended, mapM_range size before]
    rfl
  · refine ⟨run.inside, ?_, packed.full.snoc positive run.fits (packed.ended before), ?_, ?_⟩
    · rw [packed.bytes, List.flatMap_append, List.flatMap_singleton, tokenBytes, UInt8.ofNat_toNat]
    · rw [expand_append, packed.pixels, List.range_eq_range', List.range_eq_range', ← List.range'_append_1,
        List.map_append, Nat.zero_add, run.pixels, expand_cons, expand_nil, List.append_nil]
    · intro later last isLast same
      obtain rfl : (length.toNat, pixelAt rawPixels channels s.i) = last := by simpa using isLast
      exact ended later same.symm

theorem packRun_total : ∃ s tokens, Loop.run (Rle.packRun rawPixels total channels) (total + 1) {} = some s ∧
    s.i = total ∧ Emitted rawPixels total channels tokens s := by
  have start : Emitted rawPixels total channels [] {} := ⟨Nat.zero_le _, rfl, .nil, rfl, nofun⟩
  have advances : ∀ k s, (k = total - s.i ∧ ∃ tokens, Emitted rawPixels total channels tokens s) →
      Loop.Advances (Rle.packRun rawPixels total channels)
        (fun k s => k = total - s.i ∧ ∃ tokens, Emitted rawPixels total channels tokens s)
        (fun s => s.i = total ∧ ∃ tokens, Emitted rawPixels total channels tokens s) k s := by
    rintro k s ⟨rfl, tokens, packed⟩
    by_cases before : s.i < total
    · obtain ⟨next, later, step, further, packed'⟩ := packRun_step size packed before
      exact .inl ⟨next, total - next.i, step, ⟨rfl, later, packed'⟩, by omega⟩
    · refine .inr ⟨s, by rw [Rle.packRun, if_neg before], ?_, tokens, packed⟩
      exact Nat.le_antisymm packed.inside (Nat.le_of_not_lt before)
  obtain ⟨s, ran, finished, tokens, packed⟩ :=
    Loop.run_total advances (total + 1) total {} ⟨rfl, [], start⟩ (Nat.lt_succ_self _)
  exact ⟨s, tokens, ran, finished, packed⟩

theorem mem_pixels_length {pixel : List UInt8}
    (member : pixel ∈ (List.range total).map (pixelAt rawPixels channels)) : pixel.length = channels := by
  obtain ⟨i, inside, rfl⟩ := List.mem_map.mp member
  exact pixelAt_length size (List.mem_range.mp inside)

end Buffer

/-! ## The compressed image -/

structure Decodes (rawPixels : List UInt8) (channels : Nat) (tokens : List (Nat × List UInt8)) : Prop where
  counts : ∀ token ∈ tokens, 1 ≤ token.1 ∧ token.1 ≤ 255
  sizes : ∀ token ∈ tokens, token.2.length = channels
  image : (expand tokens).flatten = rawPixels

theorem Decodes.pixel_length {rawPixels : List UInt8} {channels : Nat} {tokens : List (Nat × List UInt8)}
    (decodes : Decodes rawPixels channels tokens) {pixel : List UInt8} (member : pixel ∈ expand tokens) :
    pixel.length = channels := by
  obtain ⟨token, inside, copy⟩ := List.mem_flatMap.mp member
  rw [List.eq_of_mem_replicate copy]
  exact decodes.sizes token inside

/-- Compression ends with a token list for the image, broken off only after full runs, and none is shorter. -/
theorem compressStbImageRuntime_shortest (rawPixels : List UInt8) (w h channels : Nat) (wide : 1 ≤ w) (high : 1 ≤ h)
    (coloured : 1 ≤ channels) (size : rawPixels.length = w * h * channels) :
    ∃ tokens, compressStbImageRuntime (some rawPixels) w h channels =
        some { packedPayload := tokens.flatMap tokenBytes, width := w, height := h, channels } ∧
      Decodes rawPixels channels tokens ∧
      tokens.IsChain (fun token next => token.2 = next.2 → token.1 = 255) ∧
      ∀ other, Decodes rawPixels channels other → tokens.length ≤ other.length := by
  obtain ⟨s, tokens, ran, finished, packed⟩ := packRun_total size
  have pixels : expand tokens = (List.range (w * h)).map (pixelAt rawPixels channels) := finished ▸ packed.pixels
  have some_ : w * h ≠ 0 := Nat.mul_ne_zero (Nat.one_le_iff_ne_zero.mp wide) (Nat.one_le_iff_ne_zero.mp high)
  have decodes : Decodes rawPixels channels tokens := by
    refine ⟨packed.full.counts, ?_, ?_⟩
    · intro token member
      have copy : token.2 ∈ expand tokens :=
        List.mem_flatMap.mpr ⟨token, member, List.mem_replicate.mpr
          ⟨Nat.one_le_iff_ne_zero.mp (packed.full.counts token member).1, rfl⟩⟩
      exact mem_pixels_length size (pixels ▸ copy)
    · rw [pixels, flatten_pixels, ← size, List.take_length]
  refine ⟨tokens, ?_, decodes, packed.full.adjacent, ?_⟩
  · simp only [compressStbImageRuntime, if_neg some_, ran, packed.bytes, Option.map_some]
  · intro other decodes'
    have same : expand other = expand tokens :=
      eq_of_flatten_eq coloured (fun _ => decodes'.pixel_length) (fun _ => decodes.pixel_length)
        (decodes'.image.trans decodes.image.symm)
    exact packed.full.length_le (fun token member => (decodes'.counts token member).2) same

theorem compressStbImageRuntime_shortest_grey : ∃ tokens,
    compressStbImageRuntime (some [7, 7, 9]) 3 1 1 =
      some { packedPayload := tokens.flatMap tokenBytes, width := 3, height := 1, channels := 1 } ∧
    Decodes [7, 7, 9] 1 tokens ∧
    tokens.IsChain (fun token next => token.2 = next.2 → token.1 = 255) ∧
    ∀ other, Decodes [7, 7, 9] 1 other → tokens.length ≤ other.length :=
  compressStbImageRuntime_shortest [7, 7, 9] 3 1 1 (by decide) (by decide) (by decide) rfl

end KnowledgeAcquisition.Proof.Compress
