import KnowledgeAcquisition.Sfd.Registry

/-!
# Reference counts

As long as `retain` finds the slot of a live descriptor, every live descriptor has one slot, which counts its
retains. An unused slot in front of it, left behind by a colliding descriptor, makes `retain` claim a
second one.
-/

namespace KnowledgeAcquisition.Proof.Sfd
open KnowledgeAcquisition.Sfd Library

variable {n : Nat}

theorem mem_probe [NeZero n] (fd : Int) (i : Fin n) : i ∈ Registry.probe n fd := by
  have positive : 0 < n := NeZero.pos n
  have first : Registry.getSlotIndex n fd < n := Nat.mod_lt _ positive
  rw [Registry.probe, List.mem_map]
  refine ⟨(i + n - Registry.getSlotIndex n fd) % n, List.mem_range.mpr (Nat.mod_lt _ positive), ?_⟩
  apply Fin.ext
  have index : Registry.getSlotIndex n fd + (i + n - Registry.getSlotIndex n fd) = i + n := by omega
  simp only [Registry.slotAt, Fin.val_ofNat, Nat.add_mod_mod, index, Nat.add_mod_right]
  exact Nat.mod_eq_of_lt i.isLt

theorem exists_slot {fd : Int} (nonnegative : 0 ≤ fd) (below : fd < n) : ∃ i : Fin n, fd = i.val := by
  refine ⟨⟨fd.toNat, by omega⟩, ?_⟩
  simp only
  omega

theorem slotAt_zero [NeZero n] (i : Fin n) : Registry.slotAt n i.val 0 = i := by
  apply Fin.ext
  have nonnegative : ¬ (i.val : Int) < 0 := by omega
  simp [Registry.slotAt, Registry.getSlotIndex, if_neg nonnegative, Nat.mod_eq_of_lt i.isLt]

theorem find?_only {slots : List (Fin n)} {p : Fin n → Bool} {i : Fin n} (member : i ∈ slots) (holds : p i = true)
    (only : ∀ j, p j = true → j = i) : slots.find? p = some i := by
  cases found : slots.find? p with
  | none =>
      rw [List.find?_eq_none] at found
      exact absurd holds (found i member)
  | some j => rw [only j (List.find?_some found)]

theorem scan_some {registry : Registry n} {fd : Int} {slots : List (Fin n)} {i : Fin n}
    (found : registry.scan fd slots = some i) : (registry i).fd = fd := by
  induction slots with
  | nil => cases found
  | cons j slots ih =>
      rw [Registry.scan] at found
      split at found
      · next holds => rw [← Option.some.inj found, holds]
      · split at found
        · cases found
        · exact ih found

theorem scan_none {registry : Registry n} {fd : Int} {slots : List (Fin n)}
    (missed : registry.scan fd slots = none) :
    (∀ i ∈ slots, (registry i).fd ≠ fd) ∨
      ∃ before i after, slots = before ++ i :: after ∧ (registry i).fd = -1 ∧
        ∀ j ∈ before, (registry j).fd ≠ fd := by
  induction slots with
  | nil => exact .inl (by simp)
  | cons j slots ih =>
      rw [Registry.scan] at missed
      split at missed
      · cases missed
      · next other =>
        split at missed
        · next unused => exact .inr ⟨[], j, slots, rfl, unused, by simp⟩
        · obtain none | ⟨before, i, after, rfl, unused, none⟩ := ih missed
          · exact .inl (List.forall_mem_cons.mpr ⟨other, none⟩)
          · exact .inr ⟨j :: before, i, after, rfl, unused, List.forall_mem_cons.mpr ⟨other, none⟩⟩

theorem claim_unused {registry : Registry n} {fd : Int} {slots : List (Fin n)}
    (absent : ∀ i, (registry i).fd ≠ fd) (free : ∃ i ∈ slots, (registry i).fd = -1) :
    ∃ i, (registry i).fd = -1 ∧ registry.claim fd slots = Function.update registry i { fd, count := 1 } := by
  induction slots with
  | nil =>
      obtain ⟨i, member, -⟩ := free
      cases member
  | cons j slots ih =>
      by_cases unused : (registry j).fd = -1
      · exact ⟨j, unused, by simp only [Registry.claim, if_pos unused]⟩
      · simp only [Registry.claim, if_neg unused, if_neg (absent j)]
        apply ih
        obtain ⟨i, member, holds⟩ := free
        cases List.mem_cons.mp member with
        | inl same => exact absurd (same ▸ holds) unused
        | inr later => exact ⟨i, later, holds⟩

/-! ## Exact counts -/

theorem toNat_add_one {count : UInt64} (bounded : count + 1 ≠ 0) : (count + 1).toNat = count.toNat + 1 := by
  rw [← UInt64.toNat_inj.ne, UInt64.toNat_add, UInt64.toNat_one, UInt64.toNat_zero] at bounded
  rw [UInt64.toNat_add, UInt64.toNat_one]
  have := count.toNat_lt
  omega

theorem toNat_sub_one {count : UInt64} (positive : 0 < count.toNat) : (count - 1).toNat = count.toNat - 1 := by
  have one : (1 : UInt64) ≤ count := by
    rw [UInt64.le_iff_toNat_le, UInt64.toNat_one]
    exact positive
  rw [UInt64.toNat_sub_of_le _ _ one, UInt64.toNat_one]

/-- The registry holds the descriptors with outstanding retains, each in one slot that counts them. -/
structure Exact (registry : Registry n) (outstanding : Int → Nat) : Prop where
  nonnegative : ∀ fd, 0 < outstanding fd → 0 ≤ fd
  live : ∀ i, (registry i).fd ≠ -1 → 0 < outstanding (registry i).fd
  count : ∀ i, (registry i).fd ≠ -1 → (registry i).count.toNat = outstanding (registry i).fd
  unique : ∀ i j, (registry i).fd ≠ -1 → (registry j).fd = (registry i).fd → j = i
  placed : ∀ fd, 0 < outstanding fd → ∃ i, (registry i).fd = fd

theorem Exact.new : Exact (Registry.new : Registry n) fun _ => 0 where
  nonnegative _ positive := absurd positive (Nat.lt_irrefl 0)
  live _ used := absurd rfl used
  count _ used := absurd rfl used
  unique _ _ used _ := absurd rfl used
  placed _ positive := absurd positive (Nat.lt_irrefl 0)

namespace Exact

variable {registry : Registry n} {outstanding : Int → Nat} {fd : Int}

theorem used (exact : Exact registry outstanding) {i : Fin n} (holds : (registry i).fd = fd)
    (positive : 0 < outstanding fd) : (registry i).fd ≠ -1 := by
  have := exact.nonnegative fd positive
  omega

theorem absent (exact : Exact registry outstanding) (nonnegative : 0 ≤ fd) (dead : outstanding fd = 0) (i : Fin n) :
    (registry i).fd ≠ fd := by
  intro holds
  have positive := exact.live i (by omega)
  rw [holds, dead] at positive
  exact absurd positive (Nat.lt_irrefl 0)

theorem used_after_update {i j : Fin n} {slot : FileDescriptionRefCount} {total : Nat}
    (after : slot.fd = fd ∧ 0 < total ∧ slot.count.toNat = total ∨ slot.fd = -1 ∧ total = 0)
    (used : (Function.update registry i slot j).fd ≠ -1) :
    (j = i ∧ Function.update registry i slot j = slot ∧ slot.fd = fd ∧ 0 < total ∧ slot.count.toNat = total) ∨
      (j ≠ i ∧ Function.update registry i slot j = registry j) := by
  by_cases same : j = i
  · subst same
    rw [Function.update_self] at used ⊢
    obtain held | ⟨unused, -⟩ := after
    · exact Or.inl ⟨rfl, rfl, held⟩
    · exact absurd unused used
  · exact Or.inr ⟨same, Function.update_of_ne same slot registry⟩

section

variable {i : Fin n} {slot : FileDescriptionRefCount} {total : Nat} (exact : Exact registry outstanding)
  (after : slot.fd = fd ∧ 0 < total ∧ slot.count.toNat = total ∨ slot.fd = -1 ∧ total = 0)

include exact after

theorem update_unique (elsewhere : ∀ j, j ≠ i → (registry j).fd ≠ fd) {j k : Fin n}
    (used : (Function.update registry i slot j).fd ≠ -1)
    (equal : (Function.update registry i slot k).fd = (Function.update registry i slot j).fd) : k = j := by
  have used' : (Function.update registry i slot k).fd ≠ -1 := fun unused => used (equal.symm.trans unused)
  obtain ⟨same, here, holds, -, -⟩ | ⟨differs, there⟩ := used_after_update after used
  · obtain ⟨again, -⟩ | ⟨differs', there'⟩ := used_after_update after used'
    · rw [same, again]
    · rw [here, there'] at equal
      exact absurd (equal.trans holds) (elsewhere k differs')
  · obtain ⟨-, here', holds, -, -⟩ | ⟨-, there'⟩ := used_after_update after used'
    · rw [there, here'] at equal
      exact absurd (equal.symm.trans holds) (elsewhere j differs)
    · rw [there] at used
      rw [there, there'] at equal
      exact exact.unique j k used equal

theorem update_placed (before : (registry i).fd = -1 ∨ (registry i).fd = fd) {g : Int}
    (positive : 0 < Function.update outstanding fd total g) : ∃ j, (Function.update registry i slot j).fd = g := by
  by_cases same : g = fd
  · subst same
    rw [Function.update_self] at positive
    obtain ⟨holds, -, -⟩ | ⟨-, zero⟩ := after
    · exact ⟨i, by rw [Function.update_self, holds]⟩
    · omega
  · rw [Function.update_of_ne same] at positive
    obtain ⟨j, holds⟩ := exact.placed g positive
    have differs : j ≠ i := by
      intro here
      subst here
      have nonnegative := exact.nonnegative g positive
      obtain unused | mine := before
      · omega
      · exact same (holds.symm.trans mine)
    exact ⟨j, by rw [Function.update_of_ne differs, holds]⟩

end

theorem update (exact : Exact registry outstanding) {i : Fin n} {slot : FileDescriptionRefCount} {total : Nat}
    (nonnegative : 0 ≤ fd) (before : (registry i).fd = -1 ∨ (registry i).fd = fd)
    (elsewhere : ∀ j, j ≠ i → (registry j).fd ≠ fd)
    (after : slot.fd = fd ∧ 0 < total ∧ slot.count.toNat = total ∨ slot.fd = -1 ∧ total = 0) :
    Exact (Function.update registry i slot) (Function.update outstanding fd total) := by
  have other (j : Fin n) (differs : j ≠ i) :
      Function.update outstanding fd total (registry j).fd = outstanding (registry j).fd := by
    rw [Function.update_of_ne (elsewhere j differs)]
  refine ⟨?_, ?_, ?_, ?_, ?_⟩
  · intro g positive
    by_cases same : g = fd
    · rw [same]
      exact nonnegative
    · rw [Function.update_of_ne same] at positive
      exact exact.nonnegative g positive
  · intro j used
    obtain ⟨-, here, holds, positive, -⟩ | ⟨differs, there⟩ := used_after_update after used
    · rw [here, holds, Function.update_self]
      exact positive
    · rw [there] at used ⊢
      rw [other j differs]
      exact exact.live j used
  · intro j used
    obtain ⟨-, here, holds, -, counts⟩ | ⟨differs, there⟩ := used_after_update after used
    · rw [here, holds, Function.update_self]
      exact counts
    · rw [there] at used ⊢
      rw [other j differs]
      exact exact.count j used
  · intro j k used equal
    exact exact.update_unique after elsewhere used equal
  · intro g positive
    exact exact.update_placed after before positive

theorem home (exact : Exact registry outstanding) (positive : 0 < outstanding fd) :
    ∃ i, (registry i).fd = fd ∧ (registry i).count.toNat = outstanding fd ∧
      ∀ slots : List (Fin n), i ∈ slots → slots.find? (fun j => (registry j).fd = fd) = some i := by
  obtain ⟨i, holds⟩ := exact.placed fd positive
  have used := exact.used holds positive
  refine ⟨i, holds, holds ▸ exact.count i used, ?_⟩
  intro slots member
  apply find?_only member
  · exact decide_eq_true holds
  · intro j found
    exact exact.unique i j used ((of_decide_eq_true found).trans holds.symm)

theorem elsewhere (exact : Exact registry outstanding) {i : Fin n} (holds : (registry i).fd = fd)
    (positive : 0 < outstanding fd) (j : Fin n) (differs : j ≠ i) : (registry j).fd ≠ fd := by
  intro found
  exact differs (exact.unique i j (exact.used holds positive) (found.trans holds.symm))

theorem free (exact : Exact registry outstanding) {fds : Finset Int} (covers : ∀ g, 0 < outstanding g → g ∈ fds)
    (few : fds.card < n) : ∃ i, (registry i).fd = -1 := by
  by_contra full
  push Not at full
  have into : ∀ i ∈ (Finset.univ : Finset (Fin n)), (registry i).fd ∈ fds :=
    fun i _ => covers _ (exact.live i (full i))
  have injective : Set.InjOn (fun i => (registry i).fd) (Finset.univ : Finset (Fin n)) :=
    fun i _ j _ equal => exact.unique j i (full j) equal
  have bound := Finset.card_le_card_of_injOn _ into injective
  rw [Finset.card_univ, Fintype.card_fin] at bound
  omega

theorem getCount_eq (exact : Exact registry outstanding) (nonnegative : 0 ≤ fd) :
    (registry.getCount fd).toNat = outstanding fd := by
  by_cases positive : 0 < outstanding fd
  · obtain ⟨i, -, counts, found⟩ := exact.home positive
    rw [Registry.getCount, found _ (List.mem_finRange i)]
    exact counts
  · have dead : outstanding fd = 0 := by omega
    have missed : (List.finRange n).find? (fun i => (registry i).fd = fd) = none := by
      rw [List.find?_eq_none]
      intro i _
      simpa using exact.absent nonnegative dead i
    rw [Registry.getCount, missed, dead]
    rfl

section
variable [NeZero n]

theorem getMutex_eq (exact : Exact registry outstanding) (positive : 0 < outstanding fd) {i : Fin n}
    (holds : (registry i).fd = fd) : registry.getMutex fd = some i := by
  obtain ⟨j, placed, -, found⟩ := exact.home positive
  have same : i = j := exact.unique j i (exact.used placed positive) (holds.trans placed.symm)
  rw [same]
  exact found _ (mem_probe fd j)

theorem retain_new (exact : Exact registry outstanding) (nonnegative : 0 ≤ fd) (dead : outstanding fd = 0)
    (free : ∃ i, (registry i).fd = -1) :
    ∃ i, (registry i).fd = -1 ∧ registry.retain fd = Function.update registry i { fd, count := 1 } := by
  have absent := exact.absent nonnegative dead
  have missed : registry.scan fd (Registry.probe n fd) = none := by
    cases found : registry.scan fd (Registry.probe n fd) with
    | none => rfl
    | some i => exact absurd (scan_some found) (absent i)
  obtain ⟨i, unused⟩ := free
  obtain ⟨j, was, claims⟩ := claim_unused absent ⟨i, mem_probe fd i, unused⟩
  refine ⟨j, was, ?_⟩
  rw [Registry.retain, if_neg (by omega), missed]
  exact claims

end

end Exact

/-- On the probe path of `fd`, the slot of `fd` comes before every unused one. -/
def Unbroken [NeZero n] (registry : Registry n) (fd : Int) : Prop :=
  ∀ k < n, (registry (Registry.slotAt n fd k)).fd = -1 → ∃ j < k, (registry (Registry.slotAt n fd j)).fd = fd

namespace Exact

variable [NeZero n] {registry : Registry n} {outstanding : Int → Nat} {fd : Int}

theorem scan_live (exact : Exact registry outstanding) (positive : 0 < outstanding fd)
    (unbroken : Unbroken registry fd) :
    ∃ i, registry.scan fd (Registry.probe n fd) = some i ∧ (registry i).fd = fd := by
  cases found : registry.scan fd (Registry.probe n fd) with
  | some i => exact ⟨i, rfl, scan_some found⟩
  | none =>
      obtain ⟨i, holds⟩ := exact.placed fd positive
      obtain none | ⟨before, gap, after, path, unused, none⟩ := scan_none found
      · exact absurd holds (none i (mem_probe fd i))
      -- The gap is the slot number `before.length` of the path.
      · have length : n = before.length + (after.length + 1) := by
          have := congrArg List.length path
          simpa [Registry.probe] using this
        have position (k : Nat) (bound : k < n) : (before ++ gap :: after)[k]? = some (Registry.slotAt n fd k) := by
          rw [← path, Registry.probe, List.getElem?_map, List.getElem?_range bound]
          rfl
        have here := position before.length (by omega)
        rw [List.getElem?_append_right (Nat.le_refl _), Nat.sub_self] at here
        have unused' : (registry (Registry.slotAt n fd before.length)).fd = -1 := Option.some.inj here ▸ unused
        obtain ⟨j, earlier, holds⟩ := unbroken before.length (by omega) unused'
        have there := position j (by omega)
        rw [List.getElem?_append_left earlier] at there
        exact absurd holds (none _ (List.mem_of_getElem? there))

theorem retain_live (exact : Exact registry outstanding) (positive : 0 < outstanding fd)
    (unbroken : Unbroken registry fd) :
    ∃ i, (registry i).fd = fd ∧ registry.retain fd = registry.add i := by
  obtain ⟨i, found, holds⟩ := exact.scan_live positive unbroken
  have nonnegative := exact.nonnegative fd positive
  refine ⟨i, holds, ?_⟩
  rw [Registry.retain, if_neg (by omega), found]

theorem retain (exact : Exact registry outstanding) (nonnegative : 0 ≤ fd)
    (room : outstanding fd = 0 → ∃ i, (registry i).fd = -1) (unbroken : 0 < outstanding fd → Unbroken registry fd)
    (bounded : outstanding fd + 1 < 2 ^ 64) :
    Exact (registry.retain fd) (Function.update outstanding fd (outstanding fd + 1)) ∧
      ∀ i, (registry i).fd ≠ -1 → (registry.retain fd i).fd = (registry i).fd := by
  cases total : outstanding fd with
  | zero =>
      obtain ⟨i, unused, retained⟩ := exact.retain_new nonnegative total (room total)
      rw [retained]
      constructor
      · exact exact.update nonnegative (.inl unused) (fun j _ => exact.absent nonnegative total j)
          (.inl ⟨rfl, Nat.one_pos, rfl⟩)
      · intro j used
        have differs : j ≠ i := fun same => used (same ▸ unused)
        rw [Function.update_of_ne differs]
  | succ more =>
      have positive : 0 < outstanding fd := by omega
      obtain ⟨i, holds, retained⟩ := exact.retain_live positive (unbroken positive)
      have counts : (registry i).count.toNat = outstanding fd :=
        holds ▸ exact.count i (exact.used holds positive)
      have added : ((registry i).count + 1).toNat = more + 1 + 1 := by
        rw [UInt64.toNat_add, counts, UInt64.toNat_one, Nat.mod_eq_of_lt bounded, total]
      rw [retained]
      constructor
      · exact exact.update nonnegative (.inr holds) (exact.elsewhere holds positive)
          (.inl ⟨holds, Nat.succ_pos _, added⟩)
      · intro j used
        by_cases same : j = i
        · rw [same, Registry.add, Function.update_self]
        · rw [Registry.add, Function.update_of_ne same]

theorem release (exact : Exact registry outstanding) (positive : 0 < outstanding fd) :
    Exact (registry.release fd).1 (Function.update outstanding fd (outstanding fd - 1)) ∧
      ((registry.release fd).2 = true ↔ outstanding fd = 1) ∧
      ∀ i, (registry i).fd ≠ -1 → (outstanding fd = 1 → (registry i).fd ≠ fd) →
        ((registry.release fd).1 i).fd = (registry i).fd := by
  obtain ⟨i, holds, counts, found⟩ := exact.home positive
  have nonnegative := exact.nonnegative fd positive
  have last : (registry i).count = 1 ↔ outstanding fd = 1 := by
    rw [← counts, ← UInt64.toNat_inj, UInt64.toNat_one]
  have subtracted : ((registry i).count - 1).toNat = outstanding fd - 1 := by
    rw [toNat_sub_one (counts ▸ positive), counts]
  have elsewhere := exact.elsewhere holds positive
  rw [Registry.release, if_neg (by omega), found _ (mem_probe fd i)]
  by_cases one : outstanding fd = 1
  · simp only [if_pos (last.mpr one), one, forall_const]
    refine ⟨exact.update nonnegative (.inr holds) elsewhere (.inr ⟨rfl, rfl⟩), trivial, ?_⟩
    intro j used other
    have differs : j ≠ i := fun same => other (same ▸ holds)
    rw [Function.update_of_ne differs]
  · simp only [if_neg (mt last.mp one), one, iff_false]
    have positive' : 0 < outstanding fd - 1 := by omega
    refine ⟨exact.update nonnegative (.inr holds) elsewhere (.inl ⟨holds, positive', subtracted⟩), nofun, ?_⟩
    intro j used other
    by_cases same : j = i
    · rw [same, Function.update_self]
    · rw [Function.update_of_ne same]

end Exact

def AtHome (registry : Registry n) : Prop := ∀ i, (registry i).fd ≠ -1 → (registry i).fd = i.val

theorem probe_cons [NeZero n] (i : Fin n) : ∃ slots, Registry.probe n i.val = i :: slots := by
  obtain ⟨m, rfl⟩ : ∃ m, n = m + 1 := Nat.exists_eq_succ_of_ne_zero (NeZero.ne n)
  refine ⟨(List.range m).map fun k => Registry.slotAt (m + 1) i.val (k + 1), ?_⟩
  rw [Registry.probe, List.range_succ_eq_map, List.map_cons, slotAt_zero, List.map_map]
  rfl

namespace AtHome

variable {registry : Registry n} {outstanding : Int → Nat} {i : Fin n}

theorem free (home : AtHome registry) (exact : Exact registry outstanding) (dead : outstanding i.val = 0) :
    (registry i).fd = -1 := by
  by_contra used
  exact exact.absent (Int.natCast_nonneg _) dead i (home i used)

theorem update (home : AtHome registry) {slot : FileDescriptionRefCount} (own : slot.fd ≠ -1 → slot.fd = i.val) :
    AtHome (Function.update registry i slot) := by
  intro j used
  by_cases same : j = i
  · rw [same, Function.update_self] at used ⊢
    exact own used
  · rw [Function.update_of_ne same] at used ⊢
    exact home j used

variable [NeZero n]

theorem unbroken (home : AtHome registry) (exact : Exact registry outstanding) (positive : 0 < outstanding i.val) :
    Unbroken registry i.val := by
  obtain ⟨j, holds⟩ := exact.placed i.val positive
  have same : j = i := by
    have at_home := home j (exact.used holds positive)
    apply Fin.ext
    omega
  have first : (registry (Registry.slotAt n i.val 0)).fd = i.val := by rw [slotAt_zero, ← same, holds, same]
  intro k _ unused
  refine ⟨0, Nat.pos_of_ne_zero ?_, first⟩
  intro start
  rw [start, first] at unused
  omega

theorem retain (home : AtHome registry) (i : Fin n) : AtHome (registry.retain i.val) := by
  obtain ⟨slots, path⟩ := probe_cons i
  have nonnegative : ¬ (i.val : Int) < 0 := by omega
  rw [Registry.retain, if_neg nonnegative, path, Registry.scan]
  by_cases own : (registry i).fd = i.val
  · rw [if_pos own]
    exact home.update fun _ => own
  · have unused : (registry i).fd = -1 := by
      by_contra used
      exact own (home i used)
    rw [if_neg own, if_pos unused]
    simp only [Registry.claim, if_pos unused]
    exact home.update fun _ => rfl

theorem release (home : AtHome registry) (fd : Int) : AtHome (registry.release fd).1 := by
  rw [Registry.release]
  split
  · exact home
  · split
    · exact home
    · next i _ =>
      by_cases last : (registry i).count = 1
      · simp only [if_pos last]
        exact home.update fun used => absurd rfl used
      · simp only [if_neg last]
        exact home.update (home i)

end AtHome

theorem Exact.retain_home [NeZero n] {registry : Registry n} {outstanding : Int → Nat} {fd : Int}
    (exact : Exact registry outstanding) (home : AtHome registry) (nonnegative : 0 ≤ fd) (below : fd < n)
    (bounded : outstanding fd + 1 < 2 ^ 64) :
    Exact (registry.retain fd) (Function.update outstanding fd (outstanding fd + 1)) ∧ AtHome (registry.retain fd) := by
  obtain ⟨i, rfl⟩ := exists_slot nonnegative below
  refine ⟨?_, home.retain i⟩
  exact (exact.retain nonnegative (fun dead => ⟨i, home.free exact dead⟩) (home.unbroken exact) bounded).1

/-! ## Sequential runs -/

def retains (usage : Usage n) (fd : Int) : Nat := usage.outstanding.count fd

theorem retains_pos {usage : Usage n} {fd : Int} : 0 < retains usage fd ↔ fd ∈ usage.outstanding :=
  List.count_pos_iff

variable [NeZero n]

def FindsSlot (usage : Usage n) : Usage.Call → Prop
  | .retain fd => fd ∈ usage.outstanding → Unbroken usage.registry fd ∧ retains usage fd + 1 < 2 ^ 64
  | .release _ => True

instance (registry : Registry n) (fd : Int) : Decidable (Unbroken registry fd) :=
  inferInstanceAs (Decidable (∀ k < n, (registry (Registry.slotAt n fd k)).fd = -1 →
    ∃ j < k, (registry (Registry.slotAt n fd j)).fd = fd))

instance (usage : Usage n) : (call : Usage.Call) → Decidable (FindsSlot usage call)
  | .retain fd =>
      inferInstanceAs (Decidable (fd ∈ usage.outstanding →
        Unbroken usage.registry fd ∧ retains usage fd + 1 < 2 ^ 64))
  | .release _ => inferInstanceAs (Decidable True)

theorem count_cons_eq (outstanding : List Int) (fd : Int) :
    (fun g => (fd :: outstanding).count g) =
      Function.update (fun g => outstanding.count g) fd (outstanding.count fd + 1) := by
  funext g
  by_cases same : g = fd
  · rw [same, Function.update_self, List.count_cons_self]
  · rw [Function.update_of_ne same, List.count_cons_of_ne (Ne.symm same)]

theorem count_erase_eq (outstanding : List Int) (fd : Int) :
    (fun g => (outstanding.erase fd).count g) =
      Function.update (fun g => outstanding.count g) fd (outstanding.count fd - 1) := by
  funext g
  by_cases same : g = fd
  · rw [same, Function.update_self, List.count_erase_self]
  · rw [Function.update_of_ne same, List.count_erase_of_ne same]

theorem step_exact {usage usage' : Usage n} {call : Usage.Call} (exact : Exact usage.registry (retains usage))
    (finds : FindsSlot usage call) (stepped : usage.step call = some usage') :
    Exact usage'.registry (retains usage') ∧
      ∀ i, (usage.registry i).fd ∈ usage.outstanding → (usage.registry i).fd ∈ usage'.outstanding →
        (usage'.registry i).fd = (usage.registry i).fd := by
  have used (i : Fin n) (member : (usage.registry i).fd ∈ usage.outstanding) : (usage.registry i).fd ≠ -1 :=
    exact.used rfl (retains_pos.mpr member)
  cases call with
  | retain fd =>
      simp only [Usage.step, Option.ite_none_right_eq_some, Option.some.injEq] at stepped
      obtain ⟨few, rfl⟩ := stepped
      by_cases negative : fd < 0
      · simp only [Registry.retain, if_pos negative]
        exact ⟨exact, fun _ _ _ => trivial⟩
      · simp only [if_neg negative] at few ⊢
        have room : retains usage fd = 0 → ∃ i, (usage.registry i).fd = -1 := by
          intro dead
          have fresh : fd ∉ usage.outstanding := List.count_eq_zero.mp dead
          refine exact.free (fun g positive => List.mem_toFinset.mpr (retains_pos.mp positive)) ?_
          rw [List.toFinset_cons, Finset.card_insert_of_notMem (mt List.mem_toFinset.mp fresh)] at few
          exact few
        have bounded : retains usage fd + 1 < 2 ^ 64 := by
          by_cases live : fd ∈ usage.outstanding
          · exact (finds live).2
          · rw [retains, List.count_eq_zero.mpr live]
            norm_num
        obtain ⟨kept, stays⟩ :=
          exact.retain (not_lt.mp negative) room (fun positive => (finds (retains_pos.mp positive)).1) bounded
        refine ⟨?_, fun i member _ => stays i (used i member)⟩
        unfold retains
        rw [count_cons_eq]
        exact kept
  | release fd =>
      simp only [Usage.step, Option.ite_none_right_eq_some, Option.some.injEq] at stepped
      obtain ⟨member, rfl⟩ := stepped
      obtain ⟨kept, -, stays⟩ := exact.release (retains_pos.mpr member)
      constructor
      · unfold retains
        rw [count_erase_eq]
        exact kept
      · intro i before after
        apply stays i (used i before)
        intro last holds
        rw [holds, ← List.count_pos_iff, List.count_erase_self] at after
        unfold retains at last
        omega

structure Accurate (usage : Usage n) : Prop where
  slot : ∀ fd ∈ usage.outstanding, ∃ i, (usage.registry i).fd = fd ∧
    (∀ j, (usage.registry j).fd = fd → j = i) ∧ (usage.registry i).count.toNat = usage.outstanding.count fd ∧
    usage.registry.getMutex fd = some i
  getCount : ∀ fd ∈ usage.outstanding, (usage.registry.getCount fd).toNat = usage.outstanding.count fd
  release : ∀ fd ∈ usage.outstanding, (usage.registry.release fd).2 = true ↔ usage.outstanding.count fd = 1

theorem Exact.accurate {usage : Usage n} (exact : Exact usage.registry (retains usage)) : Accurate usage := by
  refine ⟨?_, ?_, ?_⟩
  · intro fd member
    have positive := retains_pos.mpr member
    obtain ⟨i, holds, counts, -⟩ := exact.home positive
    refine ⟨i, holds, ?_, counts, exact.getMutex_eq positive holds⟩
    intro j found
    exact exact.unique i j (exact.used holds positive) (found.trans holds.symm)
  · intro fd member
    exact exact.getCount_eq (exact.nonnegative fd (retains_pos.mpr member))
  · intro fd member
    exact (exact.release (retains_pos.mpr member)).2.1

theorem run_exact {usage usage' : Usage n} {calls : List Usage.Call} (exact : Exact usage.registry (retains usage))
    (finds : Trace.Meets Usage.step FindsSlot usage calls) (ran : usage.run calls = some usage') :
    Exact usage'.registry (retains usage') := by
  have keeps (usage : Usage n) (call : Usage.Call) (usage' : Usage n) (exact : Exact usage.registry (retains usage))
      (finds : FindsSlot usage call) (stepped : usage.step call = some usage') :
      Exact usage'.registry (retains usage') := (step_exact exact finds stepped).1
  exact Trace.run_preserves keeps exact finds ran

theorem getMutex_step {usage usage' : Usage n} {call : Usage.Call} {fd : Int}
    (exact : Exact usage.registry (retains usage)) (finds : FindsSlot usage call)
    (stepped : usage.step call = some usage') (live : fd ∈ usage.outstanding) (still : fd ∈ usage'.outstanding) :
    usage'.registry.getMutex fd = usage.registry.getMutex fd := by
  obtain ⟨kept, stays⟩ := step_exact exact finds stepped
  obtain ⟨i, rfl⟩ := exact.placed fd (retains_pos.mpr live)
  rw [exact.getMutex_eq (retains_pos.mpr live) rfl]
  exact kept.getMutex_eq (retains_pos.mpr still) (stays i live still)

theorem run_accurate {usage : Usage n} {calls : List Usage.Call}
    (finds : Trace.Meets Usage.step FindsSlot (Usage.new : Usage n) calls) (ran : Usage.new.run calls = some usage) :
    Accurate usage ∧ ∀ (fd : Int) (later : List Usage.Call) (usage' : Usage n),
      Trace.Meets Usage.step (fun now call => FindsSlot now call ∧ fd ∈ now.outstanding) usage later →
      usage.run later = some usage' → fd ∈ usage'.outstanding →
      usage'.registry.getMutex fd = usage.registry.getMutex fd := by
  have exact : Exact usage.registry (retains usage) := run_exact Exact.new finds ran
  refine ⟨exact.accurate, ?_⟩
  intro fd later usage' meets reaches live
  have keeps (now : Usage n) (call : Usage.Call) (next : Usage n)
      (kept : Exact now.registry (retains now) ∧
        (fd ∈ now.outstanding → now.registry.getMutex fd = usage.registry.getMutex fd))
      (meets : FindsSlot now call ∧ fd ∈ now.outstanding) (stepped : now.step call = some next) :
      Exact next.registry (retains next) ∧
        (fd ∈ next.outstanding → next.registry.getMutex fd = usage.registry.getMutex fd) := by
    refine ⟨(step_exact kept.1 meets.1 stepped).1, ?_⟩
    intro still
    rw [getMutex_step kept.1 meets.1 stepped meets.2 still]
    exact kept.2 meets.2
  exact (Trace.run_preserves keeps ⟨exact, fun _ => rfl⟩ meets reaches).2 live

theorem run_accurate_two : ∃ usage : Usage 2,
    Usage.new.run [.retain 0, .retain 2, .retain 0, .release 2, .retain 0] = some usage ∧ Accurate usage := by
  refine ⟨_, rfl, ?_⟩
  have finds : Trace.Meets Usage.step FindsSlot (Usage.new : Usage 2)
    [.retain 0, .retain 2, .retain 0, .release 2, .retain 0] := by decide
  exact (run_accurate finds rfl).1

/-- Descriptors 0 and 2 collide. Once 0 is released, the next retain of 2 takes the slot it has left. -/
theorem retain_claims_twice : ∃ (calls : List Usage.Call) (usage : Usage 2),
    Usage.new.run calls = some usage ∧ ¬ Accurate usage := by
  refine ⟨[.retain 0, .retain 2, .release 0, .retain 2], _, rfl, ?_⟩
  intro accurate
  exact absurd (accurate.getCount 2 (by decide)) (by decide)

end KnowledgeAcquisition.Proof.Sfd
