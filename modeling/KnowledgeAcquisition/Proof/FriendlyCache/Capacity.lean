import KnowledgeAcquisition.Proof.FriendlyCache.Cache

/-!
# What the capacity changes

Calls of `get` on absent keys leave a cache as it is, so a larger cache may keep its entries in another order. Still it
holds what the smaller one holds.
-/

namespace KnowledgeAcquisition.Proof.FriendlyCache
open KnowledgeAcquisition.FriendlyCache LeastRecentlyUsed Library
open MemoryFriendlyLRUCache (Call new)

variable {Key Value : Type} [BEq Key] [LawfulBEq Key] {small large entries : List (Key × Value)}
  {entry : Key × Value} {key : Key} {value : Value} {capacity lower upper : Nat}

def Keyed (entries : List (Key × Value)) : Prop := (entries.map Prod.fst).Nodup

theorem lookup_key (found : lookup entries key = some entry) : entry ∈ entries ∧ entry.1 = key := by
  have same : (entry.1 == key) = true := by
    unfold lookup at found
    simpa using List.find?_some found
  exact ⟨List.mem_of_find?_eq_some found, eq_of_beq same⟩

theorem lookup_of_mem (keyed : Keyed entries) (member : entry ∈ entries) : lookup entries entry.1 = some entry := by
  induction entries with
  | nil => cases member
  | cons first rest ih =>
      obtain ⟨fresh, keyed⟩ := List.nodup_cons.mp keyed
      rcases List.mem_cons.mp member with rfl | later
      · simp [lookup]
      · have other : first.1 ≠ entry.1 := fun same => fresh (same ▸ List.mem_map_of_mem later)
        have rest := ih keyed later
        simpa [lookup, other] using rest

theorem lookup_none (absent : lookup entries key = none) : ∀ other ∈ entries, other.1 ≠ key := by
  intro other member same
  have missed := List.find?_eq_none.mp absent other member
  exact missed (by rw [same]; exact beq_self_eq_true key)

theorem lookup_mono (keyed : Keyed large) (inside : small.Sublist large) (found : lookup small key = some entry) :
    lookup large key = some entry := by
  obtain ⟨member, rfl⟩ := lookup_key found
  exact lookup_of_mem keyed (inside.subset member)

theorem erase_absent (absent : lookup entries key = none) : entries.eraseP (fun other => other.1 == key) = entries := by
  apply List.eraseP_of_forall_not
  intro other member
  simpa using lookup_none absent other member

theorem erased_absent (keyed : Keyed entries) :
    ∀ other ∈ entries.eraseP (fun other => other.1 == key), other.1 ≠ key := by
  induction entries with
  | nil => nofun
  | cons first rest ih =>
      obtain ⟨fresh, keyed⟩ := List.nodup_cons.mp keyed
      intro other member same
      by_cases hit : first.1 = key
      · rw [List.eraseP_cons_of_pos (by simpa using hit)] at member
        exact fresh (hit.trans same.symm ▸ List.mem_map_of_mem member)
      · rw [List.eraseP_cons_of_neg (by simpa using hit)] at member
        rcases List.mem_cons.mp member with rfl | later
        · exact hit same
        · exact ih keyed other later same

theorem keyed_touch (keyed : Keyed entries) (entry : Key × Value) : Keyed (touch entries entry) := by
  refine List.nodup_cons.mpr ⟨?_, keyed.sublist (List.eraseP_sublist.map Prod.fst)⟩
  intro again
  obtain ⟨other, member, same⟩ := List.mem_map.mp again
  exact erased_absent keyed other member same

theorem length_touch (found : lookup entries key = some entry) (value : Value) :
    (touch entries (entry.1, value)).length = entries.length := by
  obtain ⟨member, -⟩ := lookup_key found
  have positive := List.length_pos_of_mem member
  rw [touch, List.length_cons, List.length_eraseP_of_mem member (beq_self_eq_true entry.1)]
  omega

theorem keyed_exec (keyed : Keyed entries) (call : Call Key Value) : Keyed (exec capacity entries call).1 := by
  cases call with
  | get key =>
      simp only [exec, LeastRecentlyUsed.get]
      cases found : lookup entries key with
      | none => exact keyed
      | some entry => exact keyed_touch keyed entry
  | put key value =>
      simp only [exec, LeastRecentlyUsed.put]
      cases found : lookup entries key with
      | none =>
          refine List.Nodup.sublist ((List.take_sublist _ _).map Prod.fst) (List.nodup_cons.mpr ⟨?_, keyed⟩)
          intro present
          obtain ⟨other, member, same⟩ := List.mem_map.mp present
          exact lookup_none found other member same
      | some entry => exact keyed_touch keyed (entry.1, value)

structure Included (lower upper : Nat) (small large : List (Key × Value)) : Prop where
  inside : small.Sublist large
  keyed : Keyed large
  room : small.length ≤ lower
  room' : large.length ≤ upper
  equal : small.length < lower → small = large

theorem sublist_dropLast {α : Type} {small large : List α} (inside : small.Sublist large) :
    small.dropLast.Sublist large.dropLast := by
  have tails := inside.reverse.tail
  rw [List.tail_reverse, List.tail_reverse] at tails
  exact List.reverse_sublist.mp tails

omit [BEq Key] [LawfulBEq Key] in
theorem Included.full (included : Included lower upper small large) (different : small ≠ large) :
    small.length = lower := by
  by_contra short
  exact different (included.equal (lt_of_le_of_ne included.room short))

omit [BEq Key] [LawfulBEq Key] in
theorem Included.evict (included : Included lower upper small large) (wider : lower ≤ upper) :
    (small.take (lower - 1)).Sublist (large.take (upper - 1)) := by
  obtain ⟨inside, keyed, room, room', equal⟩ := included
  rcases Nat.lt_or_ge large.length upper with spare | full
  · rw [List.take_of_length_le (Nat.le_sub_one_of_lt spare)]
    exact (List.take_sublist _ _).trans inside
  · have full : large.length = upper := le_antisymm room' full
    have full' : small.length = lower := by
      by_contra short
      have short := lt_of_le_of_ne room short
      rw [equal short, full] at short
      exact absurd wider (not_le.mpr short)
    rw [← full, ← full', ← List.dropLast_eq_take, ← List.dropLast_eq_take]
    exact sublist_dropLast inside

theorem included_exec (positive : 1 ≤ lower) (wider : lower ≤ upper) (included : Included lower upper small large) (call : Call Key Value) :
    Included lower upper (exec lower small call).1 (exec upper large call).1 ∧
      ∀ value, (exec lower small call).2 = some value → (exec upper large call).2 = some value := by
  have evicted := included.evict wider
  have full := included.full
  obtain ⟨inside, keyed, room, room', equal⟩ := included
  have keyed' : Keyed (exec upper large call).1 := keyed_exec keyed call
  cases call with
  | get key =>
      simp only [exec, LeastRecentlyUsed.get] at keyed' ⊢
      cases hit : lookup small key with
      | none =>
          refine ⟨?_, fun value none => absurd none (Option.some_ne_none value).symm⟩
          cases hit' : lookup large key with
          | none => exact ⟨inside, keyed, room, room', equal⟩
          | some entry =>
              rw [hit'] at keyed'
              obtain ⟨member, rfl⟩ := lookup_key hit'
              refine ⟨?_, keyed', room, ?_, ?_⟩
              · have erased := inside.eraseP (p := fun other => other.1 == entry.1)
                rw [erase_absent hit] at erased
                exact erased.cons entry
              · exact (length_touch hit' entry.2).trans_le room'
              · intro short
                rw [equal short, hit'] at hit
                cases hit
      | some entry =>
          have hit' := lookup_mono keyed inside hit
          rw [hit'] at keyed' ⊢
          refine ⟨⟨?_, keyed', ?_, ?_, ?_⟩, fun value same => same⟩
          · exact (inside.eraseP).cons_cons entry
          · exact (length_touch hit entry.2).trans_le room
          · exact (length_touch hit' entry.2).trans_le room'
          · intro short
            rw [show (touch small entry).length = _ from length_touch hit entry.2] at short
            rw [equal short]
  | put key value =>
      simp only [exec, LeastRecentlyUsed.put] at keyed' ⊢
      refine ⟨?_, fun value none => absurd none (Option.some_ne_none value).symm⟩
      cases hit : lookup small key with
      | none =>
          cases hit' : lookup large key with
          | none =>
              rw [hit'] at keyed'
              refine ⟨?_, keyed', List.length_take_le _ _, List.length_take_le _ _, ?_⟩
              · rw [List.take_cons positive, List.take_cons (positive.trans wider)]
                exact evicted.cons_cons (key, value)
              · intro short
                rw [List.length_take, List.length_cons] at short
                have spare : small.length + 1 ≤ lower := by omega
                rw [← equal spare, List.take_of_length_le spare, List.take_of_length_le (spare.trans wider)]
          | some entry =>
              rw [hit'] at keyed'
              obtain ⟨member, rfl⟩ := lookup_key hit'
              have full := full fun same => absurd (same ▸ hit) (hit' ▸ Option.some_ne_none entry)
              refine ⟨?_, keyed', List.length_take_le _ _, (length_touch hit' value).trans_le room', ?_⟩
              · have erased := inside.eraseP (p := fun other => other.1 == entry.1)
                rw [erase_absent hit] at erased
                rw [List.take_cons positive]
                exact ((List.take_sublist _ _).trans erased).cons_cons (entry.1, value)
              · intro short
                rw [List.length_take, List.length_cons, full] at short
                omega
      | some entry =>
          have hit' := lookup_mono keyed inside hit
          rw [hit'] at keyed' ⊢
          refine ⟨?_, keyed', ?_, ?_, ?_⟩
          · exact (inside.eraseP).cons_cons (entry.1, value)
          · exact (length_touch hit value).trans_le room
          · exact (length_touch hit' value).trans_le room'
          · intro short
            rw [length_touch hit value] at short
            rw [equal short]

omit [BEq Key] [LawfulBEq Key] in
theorem included_nil (lower upper : Nat) : Included lower upper ([] : List (Key × Value)) [] :=
  ⟨List.Sublist.refl _, List.nodup_nil, Nat.zero_le _, Nat.zero_le _, fun _ => rfl⟩

section Larger

variable [Hashable Key]

/-- On the same calls, whatever a cache returns, every larger cache returns too. -/
theorem run_larger (positive : 1 ≤ lower) (wider : lower ≤ upper) (policy policy' : RehashPolicy)
    (calls : List (Call Key Value)) :
    ∃ cache cache' results results', (new lower).run policy calls = .ok (cache, results) ∧
      (new upper).run policy' calls = .ok (cache', results') ∧
      results.Forall₂ (fun result result' => ∀ value, result = some value → result' = some value) results' := by
  have start : Represents lower (new lower : MemoryFriendlyLRUCache Key Value) [] := represents_new
  have start' : Represents upper (new upper : MemoryFriendlyLRUCache Key Value) [] := represents_new
  obtain ⟨cache, -, ran, -, -⟩ := run_refines start positive policy calls
  obtain ⟨cache', -, ran', -, -⟩ := run_refines start' (positive.trans wider) policy' calls
  refine ⟨cache, cache', _, _, ran, ran', ?_⟩
  exact (Transducer.feed_related (R := Included lower upper)
    (fun _ _ call included => included_exec positive wider included call) (included_nil lower upper) calls).2

/-- A call of `get` that misses in the smaller cache changes the order of the larger one. -/
theorem run_larger_two :
    ∃ cache cache' results results', (new 1).run (fun _ _ => none)
        [.put 1 "one", .put 2 "two", .get 1, .put 3 "three", .get 1, .get 2, .get 3] = .ok (cache, results) ∧
      (new 2).run (fun _ _ => none)
        [.put 1 "one", .put 2 "two", .get 1, .put 3 "three", .get 1, .get 2, .get 3] = .ok (cache', results') ∧
      results.Forall₂ (fun result result' => ∀ value, result = some value → result' = some value) results' :=
  run_larger (by decide) (by decide) _ _ _

end Larger

/-! ## What stays in the cache -/

variable {others : List Key} {call : Call Key Value} {calls : List (Call Key Value)}

def keyOf : Call Key Value → Key
  | .get key => key
  | .put key _ => key

def Leaves (key : Key) (call : Call Key Value) : Prop := ∀ value, call ≠ .put key value

def Latest (key : Key) (value : Value) (entries : List (Key × Value)) : Prop :=
  ∀ entry ∈ entries, entry.1 = key → entry.2 = value

omit [LawfulBEq Key] in
theorem mem_touch {other : Key × Value} (member : other ∈ touch entries entry) : other = entry ∨ other ∈ entries :=
  (List.mem_cons.mp member).imp_right List.mem_of_mem_eraseP

theorem latest_exec (latest : Latest key value entries) (leaves : Leaves key call) :
    Latest key value (exec capacity entries call).1 := by
  intro other member same
  cases call with
  | get key' =>
      simp only [exec, LeastRecentlyUsed.get] at member
      cases found : lookup entries key' with
      | none =>
          rw [found] at member
          exact latest other member same
      | some entry =>
          rw [found] at member
          rcases mem_touch member with rfl | member
          · exact latest other (lookup_key found).1 same
          · exact latest other member same
  | put key' value' =>
      simp only [exec, LeastRecentlyUsed.put] at member
      have apart : key' ≠ key := fun equal => leaves value' (equal ▸ rfl)
      cases found : lookup entries key' with
      | none =>
          rw [found] at member
          rcases List.mem_cons.mp (List.mem_of_mem_take member) with rfl | member
          · exact absurd same apart
          · exact latest other member same
      | some entry =>
          rw [found] at member
          rcases mem_touch member with rfl | member
          · exact absurd ((lookup_key found).2.symm.trans same) apart
          · exact latest other member same

/-- The key with its value, and in front of it only keys that were used later. -/
def Recent (others : List Key) (key : Key) (value : Value) (entries : List (Key × Value)) : Prop :=
  ∃ front back, entries = front ++ (key, value) :: back ∧ ∀ other ∈ front, other.1 ∈ others

omit [BEq Key] [LawfulBEq Key] in
theorem recent_front (back : List (Key × Value)) : Recent others key value ((key, value) :: back) :=
  ⟨[], back, rfl, nofun⟩

theorem Recent.lookup_eq (recent : Recent others key value entries) (keyed : Keyed entries) :
    lookup entries key = some (key, value) := by
  obtain ⟨front, back, rfl, -⟩ := recent
  have member : (key, value) ∈ front ++ (key, value) :: back := List.mem_append_right front List.mem_cons_self
  exact lookup_of_mem keyed member

theorem Recent.touch (recent : Recent others key value entries) (apart : entry.1 ≠ key) (used : entry.1 ∈ others) :
    Recent others key value (touch entries entry) := by
  obtain ⟨front, back, rfl, ahead⟩ := recent
  have rest : ((key, value) :: back).eraseP (fun other => other.1 == entry.1) =
      (key, value) :: back.eraseP (fun other => other.1 == entry.1) :=
    List.eraseP_cons_of_neg (by simpa using apart.symm)
  unfold LeastRecentlyUsed.touch
  rw [List.eraseP_append, rest]
  split_ifs
  · refine ⟨entry :: front.eraseP (fun other => other.1 == entry.1), back, rfl, ?_⟩
    intro other member
    rcases List.mem_cons.mp member with rfl | member
    · exact used
    · exact ahead other (List.mem_of_mem_eraseP member)
  · refine ⟨entry :: front, back.eraseP (fun other => other.1 == entry.1), rfl, ?_⟩
    intro other member
    rcases List.mem_cons.mp member with rfl | member
    · exact used
    · exact ahead other member

omit [BEq Key] [LawfulBEq Key] in
theorem Recent.enter (recent : Recent others key value entries) (few : others.length < capacity)
    (keyed : Keyed (entry :: entries)) (used : entry.1 ∈ others) :
    Recent others key value ((entry :: entries).take capacity) := by
  obtain ⟨front, back, rfl, ahead⟩ := recent
  have ahead' : ∀ other ∈ entry :: front, other.1 ∈ others := by
    intro other member
    rcases List.mem_cons.mp member with rfl | member
    · exact used
    · exact ahead other member
  have keys : ((entry :: front).map Prod.fst).Nodup :=
    keyed.sublist ((List.sublist_append_left (entry :: front) ((key, value) :: back)).map Prod.fst)
  have subset : (entry :: front).map Prod.fst ⊆ others := by
    intro key member
    obtain ⟨other, inside, rfl⟩ := List.mem_map.mp member
    exact ahead' other inside
  have room : (entry :: front).length < capacity := by
    have bound := (List.subperm_of_subset keys subset).length_le
    rw [List.length_map] at bound
    exact bound.trans_lt few
  rw [← List.cons_append, List.take_append, List.take_of_length_le room.le, List.take_cons (Nat.sub_pos_of_lt room)]
  exact ⟨entry :: front, _, rfl, ahead'⟩

theorem recent_exec (recent : Recent others key value entries) (keyed : Keyed entries) (few : others.length < capacity)
    (leaves : Leaves key call) (used : keyOf call = key ∨ keyOf call ∈ others) :
    Recent others key value (exec capacity entries call).1 := by
  cases call with
  | get key' =>
      simp only [exec, LeastRecentlyUsed.get]
      cases found : lookup entries key' with
      | none => exact recent
      | some entry =>
          obtain ⟨member, rfl⟩ := lookup_key found
          by_cases same : entry.1 = key
          · obtain rfl : entry = (key, value) := by
              rw [same, recent.lookup_eq keyed] at found
              exact (Option.some.inj found).symm
            exact recent_front _
          · exact recent.touch same (used.resolve_left same)
  | put key' value' =>
      have apart : key' ≠ key := fun equal => leaves value' (equal ▸ rfl)
      have used : key' ∈ others := used.resolve_left apart
      simp only [exec, LeastRecentlyUsed.put]
      cases found : lookup entries key' with
      | none =>
          refine recent.enter few (List.nodup_cons.mpr ⟨?_, keyed⟩) used
          intro present
          obtain ⟨other, member, same⟩ := List.mem_map.mp present
          exact lookup_none found other member same
      | some entry =>
          obtain ⟨-, rfl⟩ := lookup_key found
          exact Recent.touch recent (show (entry.1, value').1 ≠ key from apart) used

theorem keyed_run (keyed : Keyed entries) (calls : List (Call Key Value)) :
    Keyed (LeastRecentlyUsed.run capacity entries calls).1 :=
  (Transducer.feed_invariant (I := Keyed) (P := fun _ => True)
    (fun _ call keyed => ⟨keyed_exec keyed call, trivial⟩) keyed calls).1

theorem latest_run (latest : Latest key value entries) (leaves : ∀ call ∈ calls, Leaves key call) :
    Latest key value (LeastRecentlyUsed.run capacity entries calls).1 := by
  induction calls generalizing entries with
  | nil => exact latest
  | cons call calls ih =>
      have next : Latest key value (exec capacity entries call).1 := latest_exec latest (leaves call List.mem_cons_self)
      exact ih next fun later member => leaves later (List.mem_cons_of_mem call member)

theorem recent_run (recent : Recent others key value entries) (keyed : Keyed entries) (few : others.length < capacity)
    (leaves : ∀ call ∈ calls, Leaves key call) (used : ∀ call ∈ calls, keyOf call = key ∨ keyOf call ∈ others) :
    Recent others key value (LeastRecentlyUsed.run capacity entries calls).1 := by
  induction calls generalizing entries with
  | nil => exact recent
  | cons call calls ih =>
      have here := List.mem_cons_self (a := call) (l := calls)
      have next := recent_exec recent keyed few (leaves call here) (used call here)
      exact ih next (keyed_exec keyed call) (fun later member => leaves later (List.mem_cons_of_mem call member))
        fun later member => used later (List.mem_cons_of_mem call member)

theorem put_front (positive : 1 ≤ capacity) (keyed : Keyed entries) (others : List Key) (key : Key) (value : Value) :
    Recent others key value (LeastRecentlyUsed.put capacity entries key value) ∧
      Latest key value (LeastRecentlyUsed.put capacity entries key value) := by
  have next : Keyed (exec capacity entries (.put key value)).1 := keyed_exec keyed (.put key value)
  have front : ∃ back, LeastRecentlyUsed.put capacity entries key value = (key, value) :: back := by
    unfold LeastRecentlyUsed.put
    cases found : lookup entries key with
    | none => exact ⟨_, List.take_cons positive⟩
    | some entry =>
        obtain ⟨-, rfl⟩ := lookup_key found
        exact ⟨_, rfl⟩
  obtain ⟨back, front⟩ := front
  simp only [exec, front] at next ⊢
  refine ⟨recent_front back, ?_⟩
  intro entry member same
  rcases List.mem_cons.mp member with rfl | later
  · rfl
  · exact absurd (List.mem_map.mpr ⟨entry, later, same⟩) (List.nodup_cons.mp next).1

variable [Hashable Key]

/-- A call of `get` returns the value that was put last or none, and not none before as many other keys have been used as
the cache has room for. -/
theorem get_after_put (positive : 1 ≤ capacity) (policy : RehashPolicy) (before after : List (Call Key Value))
    (key : Key) (value : Value) (leaves : ∀ call ∈ after, Leaves key call) :
    ∃ cache results answer,
      (new capacity).run policy (before ++ .put key value :: (after ++ [.get key])) = .ok (cache, results ++ [answer]) ∧
      (answer = none ∨ answer = some value) ∧
      ∀ others : List Key, others.length < capacity → (∀ call ∈ after, keyOf call = key ∨ keyOf call ∈ others) →
        answer = some value := by
  have start : Represents capacity (new capacity : MemoryFriendlyLRUCache Key Value) [] := represents_new
  obtain ⟨cache, -, ran, -, -⟩ := run_refines start positive policy (before ++ .put key value :: (after ++ [.get key]))
  let held := (LeastRecentlyUsed.run capacity [] before).1
  let entries := (LeastRecentlyUsed.run capacity (LeastRecentlyUsed.put capacity held key value) after).1
  have empty : Keyed ([] : List (Key × Value)) := List.nodup_nil
  have keyed : Keyed held := keyed_run empty before
  have keyed' : Keyed (LeastRecentlyUsed.put capacity held key value) := keyed_exec keyed (.put key value)
  have keyed'' : Keyed entries := keyed_run keyed' after
  have results : (LeastRecentlyUsed.run capacity [] (before ++ .put key value :: (after ++ [.get key]))).2 =
      (LeastRecentlyUsed.run capacity [] before).2 ++
        none :: (LeastRecentlyUsed.run capacity (LeastRecentlyUsed.put capacity held key value) after).2 ++
        [(LeastRecentlyUsed.get entries key).2] := by
    unfold LeastRecentlyUsed.run
    rw [Transducer.feed_append, Transducer.feed_cons, Transducer.feed_append, List.append_assoc, List.cons_append]
    rfl
  rw [List.map_nil, results] at ran
  refine ⟨cache, _, (LeastRecentlyUsed.get entries key).2, ran, ?_, ?_⟩
  · have latest : Latest key value entries := latest_run (put_front positive keyed [] key value).2 leaves
    unfold LeastRecentlyUsed.get
    cases found : lookup entries key with
    | none => exact Or.inl rfl
    | some entry =>
        obtain ⟨member, same⟩ := lookup_key found
        exact Or.inr (congrArg some (latest entry member same))
  · intro others few used
    have recent : Recent others key value entries :=
      recent_run (put_front positive keyed others key value).1 keyed' few leaves used
    unfold LeastRecentlyUsed.get
    rw [recent.lookup_eq keyed'']

theorem get_after_put_three :
    ∃ cache results answer, (new 3).run (fun _ _ => none)
        ([.put 9 "nine", .put 1 "old"] ++ .put 1 "one" :: ([.put 2 "two", .get 1, .put 3 "three"] ++ [.get 1])) =
        .ok (cache, results ++ [answer]) ∧
      answer = some "one" := by
  have leaves : ∀ call ∈ ([.put 2 "two", .get 1, .put 3 "three"] : List (Call Nat String)), Leaves 1 call := by
    simp [Leaves]
  obtain ⟨cache, results, answer, ran, -, kept⟩ :=
    get_after_put (by decide : 1 ≤ 3) (fun _ _ => none) [.put 9 "nine", .put 1 "old"] _ 1 "one" leaves
  refine ⟨cache, results, answer, ran, kept [2, 3] (by decide) ?_⟩
  simp [keyOf]

end KnowledgeAcquisition.Proof.FriendlyCache
