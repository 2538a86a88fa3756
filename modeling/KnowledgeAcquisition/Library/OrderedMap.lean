import Mathlib.Data.List.Basic
import Mathlib.Data.List.Lookmap
import Mathlib.Data.List.Sort
import Mathlib.Order.RelClasses

/-!
# Maps ordered by a strict total order on their keys

A finite map whose entries are kept strictly sorted by `lt`, with the operations of a red-black
tree map that an iterating client sees: the first entry, lookup, assignment through the index
operator, and removal. The order is a field, so an unsorted map cannot be built.
-/

namespace KnowledgeAcquisition.Library

structure OrderedMap (K V : Type*) (lt : K → K → Prop) where
  entries : List (K × V)
  sorted : entries.Pairwise fun a b => lt a.1 b.1

namespace OrderedMap

variable {K V : Type*} {lt : K → K → Prop}

def keys (m : OrderedMap K V lt) : List K := m.entries.map Prod.fst

def empty : OrderedMap K V lt := ⟨[], List.Pairwise.nil⟩

def first? (m : OrderedMap K V lt) : Option (K × V) := m.entries.head?

theorem keys_sorted (m : OrderedMap K V lt) : m.keys.Pairwise lt :=
  List.pairwise_map.mpr m.sorted

section Order

variable [IsStrictTotalOrder K lt]

theorem key_ne_of_lt {a b : K} (less : lt a b) : a ≠ b := by
  rintro rfl
  exact irrefl a less

theorem keys_nodup (m : OrderedMap K V lt) : m.keys.Nodup :=
  m.keys_sorted.imp key_ne_of_lt

end Order

variable [DecidableEq K]

def find? (m : OrderedMap K V lt) (k : K) : Option V := m.entries.lookup k

theorem lookup_cons_eq (k : K) (e : K × V) (es : List (K × V)) :
    (e :: es).lookup k = if k = e.1 then some e.2 else es.lookup k := by
  rw [List.lookup_cons]
  by_cases here : k = e.1
  · simp [here]
  · simp [here, beq_eq_false_iff_ne.mpr here]

def eraseEntry (k : K) : List (K × V) → List (K × V)
  | [] => []
  | e :: es => if e.1 = k then es else e :: eraseEntry k es

theorem eraseEntry_sublist (k : K) (es : List (K × V)) : (eraseEntry k es).Sublist es := by
  induction es with
  | nil => exact List.Sublist.refl _
  | cons e es ih =>
      unfold eraseEntry
      split
      · exact List.sublist_cons_self e es
      · exact ih.cons_cons e

def erase (m : OrderedMap K V lt) (k : K) : OrderedMap K V lt :=
  ⟨eraseEntry k m.entries, m.sorted.sublist (eraseEntry_sublist k m.entries)⟩

section Keys

variable [IsStrictTotalOrder K lt]

theorem lookup_eq_some_iff {es : List (K × V)} (sorted : es.Pairwise fun a b => lt a.1 b.1)
    {k : K} {v : V} : es.lookup k = some v ↔ (k, v) ∈ es := by
  induction es with
  | nil => simp
  | cons e es ih =>
      rw [lookup_cons_eq]
      split
      · rename_i here
        have absent : (k, v) ∉ es := fun member =>
          key_ne_of_lt (List.rel_of_pairwise_cons sorted member) here.symm
        rw [List.mem_cons, or_iff_left absent]
        simp [here, Prod.ext_iff, eq_comm]
      · rename_i other
        simp [ih sorted.of_cons, Prod.ext_iff, other]

theorem find?_eq_some_iff (m : OrderedMap K V lt) {k : K} {v : V} :
    m.find? k = some v ↔ (k, v) ∈ m.entries :=
  lookup_eq_some_iff m.sorted

theorem find?_isSome_iff (m : OrderedMap K V lt) {k : K} : (∃ v, m.find? k = some v) ↔ k ∈ m.keys := by
  simp only [find?_eq_some_iff, keys, List.mem_map, Prod.exists, exists_and_right, exists_eq_right]

theorem find?_eq_none_iff (m : OrderedMap K V lt) {k : K} : m.find? k = none ↔ k ∉ m.keys := by
  rw [← find?_isSome_iff, Option.eq_none_iff_forall_ne_some, not_exists]

theorem ext_find? {m m' : OrderedMap K V lt} (same : ∀ k, m.find? k = m'.find? k) : m = m' := by
  have irreflexive : Std.Irrefl fun a b : K × V => lt a.1 b.1 := ⟨fun a => irrefl a.1⟩
  have antisymmetric : Std.Antisymm fun a b : K × V => lt a.1 b.1 :=
    ⟨fun _ _ less more => absurd more (asymm less)⟩
  have members : ∀ e, e ∈ m.entries ↔ e ∈ m'.entries := by
    rintro ⟨k, v⟩
    rw [← m.find?_eq_some_iff, ← m'.find?_eq_some_iff, same]
  have entries : m.entries = m'.entries := m.sorted.eq_of_mem_iff m'.sorted members
  cases m
  cases m'
  cases entries
  rfl

/-! ## Removal -/

theorem mem_eraseEntry {es : List (K × V)} (sorted : es.Pairwise fun a b => lt a.1 b.1)
    {k : K} {e : K × V} : e ∈ eraseEntry k es ↔ e ∈ es ∧ e.1 ≠ k := by
  induction es with
  | nil => simp [eraseEntry]
  | cons d es ih =>
      unfold eraseEntry
      split
      · rename_i here
        have later : ∀ x ∈ es, x.1 ≠ k := fun x member =>
          here ▸ (key_ne_of_lt (List.rel_of_pairwise_cons sorted member)).symm
        constructor
        · exact fun member => ⟨List.mem_cons_of_mem _ member, later e member⟩
        · rintro ⟨member, other⟩
          rcases List.mem_cons.mp member with rfl | member
          · exact absurd here other
          · exact member
      · rename_i other
        simp only [List.mem_cons, ih sorted.of_cons]
        constructor
        · rintro (rfl | ⟨member, ne⟩)
          · exact ⟨Or.inl rfl, other⟩
          · exact ⟨Or.inr member, ne⟩
        · rintro ⟨rfl | member, ne⟩
          · exact Or.inl rfl
          · exact Or.inr ⟨member, ne⟩

theorem find?_erase (m : OrderedMap K V lt) (k k' : K) :
    (m.erase k).find? k' = if k' = k then none else m.find? k' := by
  apply Option.ext
  intro v
  rw [find?_eq_some_iff]
  simp only [erase, mem_eraseEntry m.sorted]
  split
  · rename_i here
    simp only [here, ne_eq, not_true_eq_false, and_false, reduceCtorEq]
  · rename_i other
    simp [find?_eq_some_iff, other]

theorem keys_erase (m : OrderedMap K V lt) (k : K) : (m.erase k).keys = m.keys.filter (· ≠ k) := by
  obtain ⟨es, sorted⟩ := m
  simp only [keys, erase]
  induction es with
  | nil => rfl
  | cons e es ih =>
      unfold eraseEntry
      have rest := ih sorted.of_cons
      split
      · rename_i here
        have later : ∀ x ∈ es.map Prod.fst, decide (x ≠ k) = true := by
          intro x member
          obtain ⟨d, found, rfl⟩ := List.mem_map.mp member
          have less := List.rel_of_pairwise_cons sorted found
          simpa [← here] using (key_ne_of_lt less).symm
        simp only [List.map_cons, List.filter_cons, here, ne_eq, not_true_eq_false, decide_false,
          Bool.false_eq_true, if_false]
        exact (List.filter_eq_self.mpr later).symm
      · rename_i other
        simp [other, rest]

variable [DecidableRel lt]

def insertKey (lt : K → K → Prop) [DecidableRel lt] (k : K) : List K → List K
  | [] => [k]
  | a :: ks => if k = a then a :: ks else if lt k a then k :: a :: ks else a :: insertKey lt k ks

def assignEntry (lt : K → K → Prop) [DecidableRel lt] (k : K) (v : V) : List (K × V) → List (K × V)
  | [] => [(k, v)]
  | e :: es =>
      if k = e.1 then (k, v) :: es
      else if lt k e.1 then (k, v) :: e :: es
      else e :: assignEntry lt k v es

omit [IsStrictTotalOrder K lt] in
theorem mem_assignEntry {k : K} {v : V} {es : List (K × V)} {e : K × V}
    (member : e ∈ assignEntry lt k v es) : e = (k, v) ∨ e ∈ es := by
  induction es with
  | nil => exact Or.inl (List.mem_singleton.mp member)
  | cons d es ih =>
      unfold assignEntry at member
      split at member
      · exact (List.mem_cons.mp member).imp_right (List.mem_cons_of_mem d)
      · split at member
        · exact List.mem_cons.mp member
        · rcases List.mem_cons.mp member with rfl | member
          · exact Or.inr List.mem_cons_self
          · exact (ih member).imp_right (List.mem_cons_of_mem d)

theorem assignEntry_sorted (k : K) (v : V) {es : List (K × V)}
    (sorted : es.Pairwise fun a b => lt a.1 b.1) :
    (assignEntry lt k v es).Pairwise fun a b => lt a.1 b.1 := by
  induction es with
  | nil => exact List.pairwise_singleton _ _
  | cons d es ih =>
      have above := fun e (member : e ∈ es) => List.rel_of_pairwise_cons sorted member
      unfold assignEntry
      split
      · rename_i here
        exact sorted.of_cons.cons fun e member => here ▸ above e member
      · rename_i other
        split
        · rename_i less
          refine sorted.cons fun e member => ?_
          rcases List.mem_cons.mp member with rfl | member
          · exact less
          · exact IsTrans.trans _ _ _ less (above e member)
        · rename_i notLess
          refine (ih sorted.of_cons).cons fun e member => ?_
          rcases mem_assignEntry member with rfl | member
          · exact ((trichotomous_of lt k d.1).resolve_left notLess).resolve_left other
          · exact above e member

def assign (m : OrderedMap K V lt) (k : K) (v : V) : OrderedMap K V lt :=
  ⟨assignEntry lt k v m.entries, assignEntry_sorted k v m.sorted⟩

omit [IsStrictTotalOrder K lt] in
theorem lookup_assignEntry (k k' : K) (v : V) (es : List (K × V)) :
    (assignEntry lt k v es).lookup k' = if k' = k then some v else es.lookup k' := by
  induction es with
  | nil => simp [assignEntry, lookup_cons_eq]
  | cons d es ih =>
      unfold assignEntry
      split
      · rename_i here
        simp only [lookup_cons_eq]
        by_cases same : k' = k
        · rw [if_pos same, if_pos same]
        · rw [if_neg same, if_neg same, if_neg (here ▸ same)]
      · rename_i other
        split
        · simp only [lookup_cons_eq]
        · simp only [lookup_cons_eq, ih]
          by_cases same : k' = d.1
          · have apart : k' ≠ k := fun found => other (found.symm.trans same)
            rw [if_pos same, if_neg apart, if_pos same]
          · rw [if_neg same, if_neg same]

theorem find?_assign (m : OrderedMap K V lt) (k k' : K) (v : V) :
    (m.assign k v).find? k' = if k' = k then some v else m.find? k' :=
  lookup_assignEntry k k' v m.entries

theorem keys_assign (m : OrderedMap K V lt) (k : K) (v : V) :
    (m.assign k v).keys = insertKey lt k m.keys := by
  obtain ⟨es, sorted⟩ := m
  simp only [keys, assign]
  induction es with
  | nil => rfl
  | cons d es ih =>
      simp only [assignEntry, List.map_cons, insertKey]
      split
      · rename_i here
        simp [here]
      · split
        · rfl
        · simp [ih sorted.of_cons]

omit [IsStrictTotalOrder K lt] in
theorem mem_insertKey {k a : K} {ks : List K} : a ∈ insertKey lt k ks ↔ a = k ∨ a ∈ ks := by
  induction ks with
  | nil => simp [insertKey]
  | cons b ks ih =>
      unfold insertKey
      split
      · rename_i here
        simp [here]
      · split
        · simp
        · simp only [List.mem_cons, ih]
          exact or_left_comm

theorem insertKey_mem {k : K} {ks : List K} (sorted : ks.Pairwise lt) (member : k ∈ ks) :
    insertKey lt k ks = ks := by
  induction ks with
  | nil => cases member
  | cons a ks ih =>
      unfold insertKey
      split
      · rfl
      · rename_i other
        have later := (List.mem_cons.mp member).resolve_left other
        rw [if_neg (asymm (List.rel_of_pairwise_cons sorted later)), ih sorted.of_cons later]

omit [IsStrictTotalOrder K lt] in
theorem assignEntry_assignEntry (k : K) (v w : V) (es : List (K × V)) :
    assignEntry lt k w (assignEntry lt k v es) = assignEntry lt k w es := by
  induction es with
  | nil => simp [assignEntry]
  | cons d es ih =>
      by_cases here : k = d.1
      · simp [assignEntry, here]
      · by_cases less : lt k d.1 <;> simp [assignEntry, here, less, ih]

theorem assign_assign (m : OrderedMap K V lt) (k : K) (v w : V) :
    (m.assign k v).assign k w = m.assign k w := by
  simp only [assign, assignEntry_assignEntry]

theorem assignEntry_self {k : K} {v : V} {es : List (K × V)} (sorted : es.Pairwise fun a b => lt a.1 b.1)
    (found : es.lookup k = some v) : assignEntry lt k v es = es := by
  induction es with
  | nil => cases found
  | cons d es ih =>
      rw [lookup_cons_eq] at found
      unfold assignEntry
      split at found
      · rename_i here
        rw [if_pos here, here, ← Option.some.inj found]
      · rename_i other
        have above := List.rel_of_pairwise_cons sorted ((lookup_eq_some_iff sorted.of_cons).mp found)
        rw [if_neg other, if_neg (asymm above), ih sorted.of_cons found]

theorem assign_self (m : OrderedMap K V lt) {k : K} {v : V} (found : m.find? k = some v) : m.assign k v = m := by
  simp only [assign, assignEntry_self m.sorted found]

end Keys

end OrderedMap

end KnowledgeAcquisition.Library
