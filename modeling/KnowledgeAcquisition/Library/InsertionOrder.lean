import Mathlib.Data.List.Nodup

/-!
# Dictionaries in order of insertion

Entries with distinct keys, where an assignment to a key that is there keeps its place and a new key comes last. `merge`
is what assignments from another dictionary come to: its values at the old keys, then its new keys in its own order.
-/

namespace KnowledgeAcquisition.Library.InsertionOrder

variable {κ ν : Type*} [DecidableEq κ] {entries before after source : List (κ × ν)} {key : κ} {value : ν}

def keys (entries : List (κ × ν)) : List κ := entries.map Prod.fst

def find (entries : List (κ × ν)) (key : κ) : Option ν := entries.lookup key

def assign : List (κ × ν) → κ → ν → List (κ × ν)
  | [], key, value => [(key, value)]
  | entry :: entries, key, value =>
      if entry.1 = key then (key, value) :: entries else entry :: assign entries key value

theorem assign_of_notMem (absent : key ∉ keys entries) : assign entries key value = entries ++ [(key, value)] := by
  induction entries with
  | nil => rfl
  | cons entry entries ih =>
      obtain ⟨other, absent⟩ := not_or.mp (mt List.mem_cons.mpr absent)
      rw [assign, if_neg (Ne.symm other), ih absent, List.cons_append]

theorem assign_middle (absent : key ∉ keys before) (old : ν) :
    assign (before ++ (key, old) :: after) key value = before ++ (key, value) :: after := by
  induction before with
  | nil => exact if_pos rfl
  | cons entry before ih =>
      obtain ⟨other, absent⟩ := not_or.mp (mt List.mem_cons.mpr absent)
      rw [List.cons_append, assign, if_neg (Ne.symm other), ih absent, List.cons_append]

omit [DecidableEq κ] in
theorem mem_keys_of_mem {entry : κ × ν} (member : entry ∈ entries) : entry.1 ∈ keys entries :=
  List.mem_map_of_mem member

omit [DecidableEq κ] in
theorem keys_append (before after : List (κ × ν)) : keys (before ++ after) = keys before ++ keys after :=
  List.map_append

omit [DecidableEq κ] in
theorem notMem_keys_before {entry : κ × ν} (distinct : (keys (before ++ entry :: after)).Nodup) :
    entry.1 ∉ keys before := by
  rw [keys_append] at distinct
  exact fun found => List.disjoint_of_nodup_append distinct found List.mem_cons_self

theorem find_isSome_iff : (find entries key).isSome ↔ key ∈ keys entries := by
  rw [find, List.lookup_isSome_iff, keys, List.mem_map]
  constructor
  · rintro ⟨entry, member, same⟩
    exact ⟨entry, member, (eq_of_beq same).symm⟩
  · rintro ⟨entry, member, rfl⟩
    exact ⟨entry, member, beq_self_eq_true _⟩

theorem find_cons (entry : κ × ν) (entries : List (κ × ν)) (key : κ) :
    find (entry :: entries) key = if key = entry.1 then some entry.2 else find entries key := by
  rw [find, List.lookup_cons]
  by_cases here : key = entry.1
  · rw [if_pos here, here, beq_self_eq_true]
  · rw [if_neg here, beq_false_of_ne here, find]

theorem find_of_mem (distinct : (keys entries).Nodup) (member : (key, value) ∈ entries) :
    find entries key = some value := by
  induction entries with
  | nil => cases member
  | cons entry entries ih =>
      obtain ⟨absent, distinct⟩ := List.nodup_cons.mp distinct
      rcases List.mem_cons.mp member with rfl | member
      · rw [find_cons, if_pos rfl]
      · have other : key ≠ entry.1 := by
          intro same
          exact absent (same ▸ mem_keys_of_mem member)
        rw [find_cons, if_neg other]
        exact ih distinct member

theorem mem_of_find (found : find entries key = some value) : (key, value) ∈ entries := by
  obtain ⟨before, after, rfl, -⟩ := List.lookup_eq_some_iff.mp found
  exact List.mem_append_right before List.mem_cons_self

/-! ## Merging -/

def updated (entries : List (κ × ν)) (new : κ → Option ν) : List (κ × ν) :=
  entries.map fun entry => (entry.1, (new entry.1).getD entry.2)

def missing (entries source : List (κ × ν)) : List (κ × ν) := source.filter fun entry => entry.1 ∉ keys entries

def merge (entries source : List (κ × ν)) : List (κ × ν) :=
  updated entries (find source) ++ missing entries source

omit [DecidableEq κ] in
theorem keys_updated (entries : List (κ × ν)) (new : κ → Option ν) : keys (updated entries new) = keys entries := by
  rw [keys, updated, List.map_map]
  rfl

theorem keys_missing : keys (missing entries source) = (keys source).filter (· ∉ keys entries) := by
  exact (List.filter_map (p := fun key => decide (key ∉ keys entries))).symm

theorem keys_merge : keys (merge entries source) = keys entries ++ (keys source).filter (· ∉ keys entries) := by
  rw [← keys_missing, ← keys_updated entries (find source)]
  exact List.map_append

theorem missing_append (entries before after : List (κ × ν)) :
    missing entries (before ++ after) = missing entries before ++ missing entries after := List.filter_append before after

theorem keys_merge_nodup (distinct : (keys entries).Nodup) (distinct' : (keys source).Nodup) :
    (keys (merge entries source)).Nodup := by
  rw [keys_merge]
  apply distinct.append (distinct'.filter _)
  intro key member absent
  exact of_decide_eq_true (List.mem_filter.mp absent).2 member

omit [DecidableEq κ] in
theorem updated_append (before after : List (κ × ν)) (new : κ → Option ν) :
    updated (before ++ after) new = updated before new ++ updated after new := List.map_append

omit [DecidableEq κ] in
theorem updated_updated (entries : List (κ × ν)) (new : κ → Option ν) :
    updated (updated entries new) new = updated entries new := by
  rw [updated, updated, List.map_map]
  apply List.map_congr_left
  intro entry _
  simp only [Function.comp_apply]
  cases new entry.1 with
  | none => rfl
  | some value => rfl

theorem updated_missing (entries : List (κ × ν)) (distinct : (keys source).Nodup) :
    updated (missing entries source) (find source) = missing entries source := by
  calc updated (missing entries source) (find source) = (missing entries source).map id := by
        apply List.map_congr_left
        intro entry member
        have found : find source entry.1 = some entry.2 := find_of_mem distinct (List.mem_of_mem_filter member)
        simp only [found, Option.getD_some, id]
    _ = missing entries source := List.map_id _

theorem missing_eq_nil (all : ∀ key ∈ keys source, key ∈ keys entries) : missing entries source = [] := by
  apply List.filter_eq_nil_iff.mpr
  intro entry member absent
  exact of_decide_eq_true absent (all entry.1 (mem_keys_of_mem member))

theorem mem_missing {entry : κ × ν} :
    entry ∈ missing entries source ↔ entry ∈ source ∧ entry.1 ∉ keys entries := by
  rw [missing, List.mem_filter, decide_eq_true_iff]

theorem missing_nil (source : List (κ × ν)) : missing [] source = source :=
  List.filter_eq_self.mpr fun _ _ => decide_eq_true List.not_mem_nil

theorem merge_merge (distinct : (keys source).Nodup) : merge (merge entries source) source = merge entries source := by
  have all : ∀ key ∈ keys source, key ∈ keys (merge entries source) := by
    intro key member
    rw [keys_merge, List.mem_append, List.mem_filter, decide_eq_true_iff]
    exact (Classical.em _).imp_right fun absent => ⟨member, absent⟩
  have again := updated_updated entries (find source)
  have new := updated_missing entries distinct
  rw [merge, missing_eq_nil all, List.append_nil]
  unfold merge
  rw [updated_append, again, new]

theorem find_updated (entries : List (κ × ν)) (new : κ → Option ν) (key : κ) :
    find (updated entries new) key = (find entries key).map fun old => (new key).getD old := by
  induction entries with
  | nil => rfl
  | cons entry entries ih =>
      rw [updated, List.map_cons, find_cons, find_cons]
      by_cases here : key = entry.1
      · rw [if_pos here, if_pos here, here]
        rfl
      · rw [if_neg here, if_neg here]
        exact ih

theorem find_missing (entries source : List (κ × ν)) (key : κ) :
    find (missing entries source) key = if key ∈ keys entries then none else find source key := by
  induction source with
  | nil => exact (ite_self none).symm
  | cons entry source ih =>
      rw [missing, List.filter_cons, find_cons]
      by_cases old : entry.1 ∈ keys entries
      · rw [if_neg (not_not.mpr old ∘ of_decide_eq_true)]
        refine ih.trans ?_
        by_cases here : key = entry.1
        · rw [if_pos (here ▸ old), if_pos (here ▸ old)]
        · rw [if_neg here]
      · rw [if_pos (decide_eq_true old), find_cons]
        by_cases here : key = entry.1
        · rw [if_pos here, if_pos here, if_neg (here ▸ old)]
        · rw [if_neg here, if_neg here]
          exact ih

theorem find_merge (entries source : List (κ × ν)) (key : κ) :
    find (merge entries source) key = (find source key).or (find entries key) := by
  rw [merge, find, List.lookup_append, ← find, ← find, find_updated, find_missing]
  cases found : find entries key with
  | none =>
      have absent : key ∉ keys entries := by
        rw [← find_isSome_iff, found]
        exact Bool.false_ne_true
      rw [if_neg absent, Option.or_none]
      rfl
  | some old =>
      cases find source key with
      | none => rfl
      | some value => rfl

end KnowledgeAcquisition.Library.InsertionOrder
