import KnowledgeAcquisition.Library.InsertionOrder
import KnowledgeAcquisition.Library.Loop
import KnowledgeAcquisition.Util.JsonHelper
import Mathlib.Data.List.ProdSigma

/-!
# Merging before saving

The two scenarios of `save_to_file_ordered` come to one merge of the baseline with the new value, where no assignment is
to a value that takes no keys.
-/

namespace KnowledgeAcquisition.Proof.Util
open KnowledgeAcquisition.Util Library InsertionOrder

variable {nlohmann : Nlohmann} {root baseline : Json} {members : List (Text × Json)}

def DistinctKeys (json : Json) : Prop := ∀ members, json = .object members → (keys members).Nodup

def TakesKeys : Json → Prop
  | .null => True
  | .object _ => True
  | _ => False

/-- The promises of `nlohmann` about access: `items()` of an object are its members, and of other values each has a key
of its own; only objects contain keys, and only they and null take new ones. -/
structure Accesses (nlohmann : Nlohmann) : Prop where
  itemsObject : ∀ members, nlohmann.items (.object members) = members
  itemsNull : nlohmann.items .null = []
  itemsDistinct : ∀ json, DistinctKeys json → (keys (nlohmann.items json)).Nodup
  containsObject : ∀ members key, nlohmann.contains (.object members) key = true ↔ key ∈ keys members
  containsOther : ∀ json key, (∀ members, json ≠ .object members) → nlohmann.contains json key = false
  findObject : ∀ members key, nlohmann.find (.object members) key = find members key
  assignObject : ∀ members key value, nlohmann.assign (.object members) key value = some (.object (assign members key value))
  assignNull : ∀ key value, nlohmann.assign .null key value = some (.object [(key, value)])
  assignOther : ∀ json key value, ¬ TakesKeys json → nlohmann.assign json key value = none

def membersOf : Json → List (Text × Json)
  | .object members => members
  | _ => []

theorem updateExisting_eq (accesses : Accesses nlohmann) (root sorted : Json) (item : Text × Json) :
    updateExisting nlohmann root sorted item =
      match find (membersOf root) item.1 with
      | some value => nlohmann.assign sorted item.1 value
      | none => some sorted := by
  have other : (∀ members, root ≠ .object members) → updateExisting nlohmann root sorted item = some sorted := by
    intro other
    rw [updateExisting, accesses.containsOther root item.1 other, if_neg Bool.false_ne_true]
  cases root with
  | object members =>
      rw [updateExisting, accesses.findObject, membersOf]
      cases found : find members item.1 with
      | none =>
          have absent : ¬ nlohmann.contains (.object members) item.1 = true := by
            rw [accesses.containsObject, ← find_isSome_iff, found]
            exact Bool.false_ne_true
          rw [if_neg absent]
      | some value =>
          have present : nlohmann.contains (.object members) item.1 = true := by
            rw [accesses.containsObject, ← find_isSome_iff, found]
            rfl
          rw [if_pos present]
          rfl
  | _ => exact other nofun

theorem updateExisting_next (accesses : Accesses nlohmann) {past rest : List (Text × Json)} {item : Text × Json}
    (absent : item.1 ∉ keys past) (root : Json) :
    updateExisting nlohmann root (.object (updated past (find (membersOf root)) ++ item :: rest)) item =
      some (.object (updated (past ++ [item]) (find (membersOf root)) ++ rest)) := by
  rw [updated_append, updateExisting_eq accesses]
  cases found : find (membersOf root) item.1 with
  | none =>
      have unchanged : updated [item] (find (membersOf root)) = [item] := by
        rw [updated, List.map_singleton, found, Option.getD_none]
      rw [unchanged, List.append_assoc]
      rfl
  | some value =>
      have changed : updated [item] (find (membersOf root)) = [(item.1, value)] := by
        rw [updated, List.map_singleton, found, Option.getD_some]
      have assigned : assign (updated past (find (membersOf root)) ++ item :: rest) item.1 value =
          updated past (find (membersOf root)) ++ (item.1, value) :: rest :=
        assign_middle (keys_updated past (find (membersOf root)) ▸ absent) item.2
      rw [changed, List.append_assoc]
      exact (accesses.assignObject _ _ _).trans (congrArg (fun entries => some (Json.object entries)) assigned)

theorem updateExisting_all (accesses : Accesses nlohmann) (distinct : (keys members).Nodup) (root : Json) :
    members.foldlM (updateExisting nlohmann root) (.object members) =
      some (.object (updated members (find (membersOf root)))) := by
  have loop : ∃ sorted, members.foldlM (updateExisting nlohmann root) (.object members) = some sorted ∧
      sorted = .object (updated members (find (membersOf root)) ++ members.drop members.length) := by
    refine Loop.foldlM_total
      (I := fun past sorted => sorted = Json.object (updated past (find (membersOf root)) ++ members.drop past.length)) ?_ rfl
    rintro past item rest sorted split rfl
    have absent : item.1 ∉ keys past := notMem_keys_before (split ▸ distinct)
    have here : members.drop past.length = item :: rest := by rw [split, List.drop_left]
    have next : members.drop (past ++ [item]).length = rest := by
      rw [split, List.append_cons past item rest, List.drop_left]
    refine ⟨_, ?_, rfl⟩
    rw [here, next]
    exact updateExisting_next accesses absent root
  obtain ⟨sorted, ran, rfl⟩ := loop
  rw [ran, List.drop_length, List.append_nil]

theorem appendNew_next (accesses : Accesses nlohmann) {past : List (Text × Json)} {item : Text × Json}
    (absent : item.1 ∉ keys past) (members : List (Text × Json)) :
    appendNew nlohmann (.object (members ++ missing members past)) item =
      some (.object (members ++ missing members (past ++ [item]))) := by
  have there : item.1 ∈ keys (members ++ missing members past) ↔ item.1 ∈ keys members := by
    rw [keys_append, keys_missing, List.mem_append, List.mem_filter]
    exact or_iff_left fun found => absent found.1
  rw [missing_append]
  by_cases old : item.1 ∈ keys members
  · have kept : missing members [item] = [] := List.filter_eq_nil_iff.mpr (by simpa using old)
    rw [appendNew, if_pos ((accesses.containsObject _ _).mpr (there.mpr old)), kept, List.append_nil]
  · have new : missing members [item] = [item] := List.filter_eq_self.mpr (by simpa using old)
    rw [appendNew, if_neg (mt (accesses.containsObject _ _).mp (mt there.mp old)), new, ← List.append_assoc,
      accesses.assignObject]
    exact congrArg (fun entries => some (Json.object entries)) (assign_of_notMem (mt there.mp old))

theorem appendNew_all (accesses : Accesses nlohmann) {items : List (Text × Json)} (distinct : (keys items).Nodup)
    (members : List (Text × Json)) :
    items.foldlM (appendNew nlohmann) (.object members) = some (.object (members ++ missing members items)) := by
  have loop : ∃ sorted, items.foldlM (appendNew nlohmann) (.object members) = some sorted ∧
      sorted = .object (members ++ missing members items) := by
    refine Loop.foldlM_total (I := fun past sorted => sorted = Json.object (members ++ missing members past)) ?_ ?_
    · rintro past item rest sorted split rfl
      exact ⟨_, appendNew_next accesses (notMem_keys_before (split ▸ distinct)) members, rfl⟩
    · rw [missing, List.filter_nil, List.append_nil]
  obtain ⟨sorted, ran, rfl⟩ := loop
  exact ran

theorem mergeOrdered_object (accesses : Accesses nlohmann) (distinct : (keys members).Nodup)
    (distinctRoot : DistinctKeys root) : mergeOrdered nlohmann (.object members) root =
      some (.object (updated members (find (membersOf root)) ++ missing members (nlohmann.items root))) := by
  have same : missing (updated members (find (membersOf root))) (nlohmann.items root) =
      missing members (nlohmann.items root) := by
    unfold missing
    rw [keys_updated]
  rw [mergeOrdered, accesses.itemsObject, updateExisting_all accesses distinct, Option.bind_eq_bind, Option.bind_some,
    appendNew_all accesses (accesses.itemsDistinct root distinctRoot), same]

variable {file : File} {b r : List (Text × Json)}

inductive Stored (nlohmann : Nlohmann) : Option Text → List (Text × Json) → Prop where
  | missing : Stored nlohmann none []
  | unparseable {text : Text} (failed : nlohmann.parse text = none) : Stored nlohmann (some text) []
  | object {text : Text} {members : List (Text × Json)} (parsed : nlohmann.parse text = some (.object members)) :
      Stored nlohmann (some text) members

structure Merged (b r written : List (Text × Json)) : Prop where
  order : keys written = keys b ++ (keys r).filter (· ∉ keys b)
  once : (keys written).Nodup
  values : ∀ key, find written key = (find r key).or (find b key)

theorem readBaseline_eq {content : Option Text} (stored : Stored nlohmann content b) :
    readBaseline nlohmann content = .object b := by
  cases stored with
  | missing => rfl
  | unparseable failed => rw [readBaseline, failed, Option.getD_none]
  | object parsed => rw [readBaseline, parsed, Option.getD_some]

theorem saveOrdered_eq (accesses : Accesses nlohmann) (distinct : (keys b).Nodup) (distinct' : (keys r).Nodup)
    (baseline : readBaseline nlohmann file.content = .object b) (prettify : Bool) :
    saveToFileOrdered nlohmann file (.object r) prettify =
      some (write nlohmann file (.object (merge b r)) (if prettify then 4 else -1)) := by
  have distinctRoot : DistinctKeys (.object r) := by
    rintro members same
    cases same
    exact distinct'
  rw [saveToFileOrdered, baseline, mergeOrdered_object accesses distinct distinctRoot, Option.map_some,
    accesses.itemsObject]
  rfl

theorem Stored.distinct {content : Option Text} (stored : Stored nlohmann content b)
    (distinct : ∀ text members, nlohmann.parse text = some (.object members) → (keys members).Nodup) : (keys b).Nodup := by
  cases stored with
  | missing => exact List.nodup_nil
  | unparseable => exact List.nodup_nil
  | object parsed => exact distinct _ _ parsed

theorem write_true {json : Json} {indent : Int} {after : Option Text}
    (written : write nlohmann file json indent = (true, after)) :
    ∃ text, nlohmann.dump json indent = some text ∧ after = some text := by
  unfold write at written
  split at written
  · split at written
    · rename_i text dumped
      exact ⟨text, dumped, (Prod.mk.inj written).2.symm⟩
    · cases written
  · cases written

theorem merged_merge (distinct : (keys b).Nodup) (distinct' : (keys r).Nodup) : Merged b r (merge b r) := by
  refine ⟨?_, keys_merge_nodup distinct distinct', find_merge b r⟩
  rw [keys_merge]
  apply congrArg (keys b ++ ·)
  apply List.filter_congr
  intro key _
  exact decide_eq_decide.mpr Iff.rfl

theorem saveOrdered_merges (accesses : Accesses nlohmann)
    (distinct : ∀ text members, nlohmann.parse text = some (.object members) → (keys members).Nodup)
    (undoes : ∀ json indent text, nlohmann.dump json indent = some text → nlohmann.parse text = some json)
    (alike : ∀ json indent indent', (nlohmann.dump json indent).isSome → (nlohmann.dump json indent').isSome)
    (stored : Stored nlohmann file.content b) (distinct' : (keys r).Nodup) {prettify : Bool} {after : Option Text}
    (saved : saveToFileOrdered nlohmann file (.object r) prettify = some (true, after)) :
    ∃ text written, after = some text ∧ nlohmann.parse text = some (.object written) ∧ Merged b r written ∧
      ∀ writable prettify', ∃ again later text',
        saveToFileOrdered nlohmann { content := after, writable } (.object r) prettify' = some (again, later) ∧
        later = some text' ∧ nlohmann.parse text' = some (.object written) := by
  have distinctB := stored.distinct distinct
  rw [saveOrdered_eq accesses distinctB distinct' (readBaseline_eq stored), Option.some.injEq] at saved
  obtain ⟨text, dumped, rfl⟩ := write_true saved
  have parsed := undoes _ _ _ dumped
  refine ⟨text, merge b r, rfl, parsed, merged_merge distinctB distinct', ?_⟩
  intro writable prettify'
  have second : saveToFileOrdered nlohmann { content := some text, writable } (.object r) prettify' = some _ :=
    saveOrdered_eq accesses (distinct _ _ parsed) distinct' (readBaseline_eq (.object parsed)) prettify'
  rw [merge_merge distinct'] at second
  obtain ⟨text', dumped'⟩ := Option.isSome_iff_exists.mp (alike _ _ (if prettify' then 4 else -1)
    (Option.isSome_iff_exists.mpr ⟨text, dumped⟩))
  cases writable with
  | false => exact ⟨false, some text, text, second, rfl, parsed⟩
  | true =>
      rw [write, if_pos rfl, dumped'] at second
      exact ⟨true, some text', text', second, rfl, undoes _ _ _ dumped'⟩

theorem ofNat_toNat_digit {char : Char} (digit : char.isDigit) : Char.ofNat (UInt8.ofNat char.toNat).toNat = char := by
  have small : char.toNat < 256 := by
    have bounds := Char.isDigit_iff_toNat.mp digit
    exact Nat.lt_of_le_of_lt bounds.2 (by decide)
  rw [UInt8.toNat_ofNat_of_lt' small, Char.ofNat_toNat]

theorem toString_injective : Function.Injective Util.toString := by
  have digits (n : Nat) : (Util.toString n).map (fun byte => Char.ofNat byte.toNat) = Nat.toDigits 10 n := by
    calc (Util.toString n).map (fun byte => Char.ofNat byte.toNat) = (Nat.toDigits 10 n).map id := by
          rw [Util.toString, List.map_map]
          apply List.map_congr_left
          intro char member
          exact ofNat_toNat_digit (Nat.isDigit_of_mem_toDigits (by decide) (by decide) member)
      _ = Nat.toDigits 10 n := List.map_id _
  intro i j same
  rw [← @Nat.ofDigitChars_ten_toDigits i, ← digits, same, digits, Nat.ofDigitChars_ten_toDigits]

def itemsOf : Json → List (Text × Json)
  | .null => []
  | .array elements => elements.zipIdx.map fun (element, i) => (Util.toString i, element)
  | .object members => members
  | primitive => [([], primitive)]

def assignTo (json : Json) (key : Text) (value : Json) : Option Json :=
  match json with
  | .null => some (.object [(key, value)])
  | .object members => some (.object (assign members key value))
  | _ => none

def accessing (parse : Text → Option Json) (dump : Json → Int → Option Text) : Nlohmann where
  parse := parse
  dump := dump
  items := itemsOf
  contains json key := (find (membersOf json) key).isSome
  find json key := find (membersOf json) key
  assign := assignTo

theorem itemsOf_distinct (json : Json) (distinct : DistinctKeys json) : (keys (itemsOf json)).Nodup := by
  cases json with
  | array elements =>
      have indices : keys (itemsOf (.array elements)) = (List.range' 0 elements.length).map Util.toString := by
        rw [← List.zipIdx_map_snd, itemsOf, keys, List.map_map, List.map_map]
        rfl
      rw [indices]
      exact List.Nodup.map toString_injective List.nodup_range'
  | object members => exact distinct members rfl
  | null => exact List.nodup_nil
  | _ => exact List.nodup_singleton _

theorem accesses_accessing (parse : Text → Option Json) (dump : Json → Int → Option Text) :
    Accesses (accessing parse dump) where
  itemsObject _ := rfl
  itemsNull := rfl
  itemsDistinct := itemsOf_distinct
  containsObject _ _ := find_isSome_iff
  containsOther json key other := by
    cases json with
    | object members => exact absurd rfl (other members)
    | _ => rfl
  findObject _ _ := rfl
  assignObject _ _ _ := rfl
  assignNull _ _ := rfl
  assignOther json key value other := by
    cases json with
    | null => exact absurd trivial other
    | object members => exact absurd trivial other
    | _ => rfl

def ascii (text : String) : Text := text.toList.map fun char => UInt8.ofNat char.toNat

section Saving

def storedText : Text := ascii "\x7b\"b\":null\x7d"

def compactText : Text := ascii "\x7b\"b\":null,\"a\":null\x7d"

def prettyText : Text := ascii "\x7b\n    \"b\": null,\n    \"a\": null\n\x7d"

def parsePair (text : Text) : Option Json :=
  if text = compactText ∨ text = prettyText then some (.object [(ascii "b", .null), (ascii "a", .null)])
  else if text = storedText then some (.object [(ascii "b", .null)]) else none

def dumpPair (json : Json) (indent : Int) : Option Text :=
  match json with
  | .object [(first, .null), (second, .null)] =>
      if first = ascii "b" ∧ second = ascii "a" then some (if indent = 4 then prettyText else compactText) else none
  | _ => none

theorem parsePair_distinct {text : Text} (parsed : parsePair text = some (.object members)) : (keys members).Nodup := by
  unfold parsePair at parsed
  split at parsed
  · obtain rfl : [(ascii "b", .null), (ascii "a", .null)] = members := Json.object.inj (Option.some.inj parsed)
    decide
  · split at parsed
    · obtain rfl : [(ascii "b", .null)] = members := Json.object.inj (Option.some.inj parsed)
      decide
    · cases parsed

theorem dumpPair_isSome_iff {json : Json} {indent : Int} :
    (dumpPair json indent).isSome ↔ json = .object [(ascii "b", .null), (ascii "a", .null)] := by
  constructor
  · intro dumped
    unfold dumpPair at dumped
    split at dumped
    · split at dumped
      · rename_i names
        rw [names.1, names.2]
      · cases dumped
    · cases dumped
  · rintro rfl
    rfl

theorem parsePair_dumpPair {json : Json} {indent : Int} {text : Text} (dumped : dumpPair json indent = some text) :
    parsePair text = some json := by
  obtain rfl := dumpPair_isSome_iff.mp (Option.isSome_iff_exists.mpr ⟨text, dumped⟩)
  have written : some (if indent = 4 then prettyText else compactText) = some text := dumped
  cases written
  split
  · exact if_pos (Or.inr rfl)
  · exact if_pos (Or.inl rfl)

theorem saveOrdered_merges_two :
    ∃ nlohmann text written,
      saveToFileOrdered nlohmann { content := some (ascii "\x7b\"b\":null\x7d"), writable := true }
        (.object [(ascii "a", .null)]) false = some (true, some text) ∧
      nlohmann.parse text = some (.object written) ∧ Merged [(ascii "b", .null)] [(ascii "a", .null)] written := by
  have saved : saveToFileOrdered (accessing parsePair dumpPair) { content := some storedText, writable := true }
      (.object [(ascii "a", .null)]) false = some (true, some compactText) := by rfl
  have stored : Stored (accessing parsePair dumpPair) (some storedText) [(ascii "b", .null)] := .object (by rfl)
  have alike (json : Json) (indent indent' : Int) (dumped : (dumpPair json indent).isSome) :
      (dumpPair json indent').isSome := dumpPair_isSome_iff.mpr (dumpPair_isSome_iff.mp dumped)
  obtain ⟨text, written, same, parsed, merged, -⟩ := saveOrdered_merges (accesses_accessing parsePair dumpPair)
    (fun _ _ => parsePair_distinct) (fun _ _ _ => parsePair_dumpPair) alike stored (by decide) saved
  cases same
  exact ⟨accessing parsePair dumpPair, compactText, written, saved, parsed, merged⟩

end Saving

/-! ## Failures -/

/-- No exception, and a failure leaves the content as it was. -/
def Safe (outcome : Option (Bool × Option Text)) (content : Text) : Prop :=
  ∃ saved after, outcome = some (saved, after) ∧ (saved = false → after = some content)

/-- The further promises of `nlohmann`: an exception exactly for a string that is not UTF-8, and valid results of parsing. -/
structure Documented (nlohmann : Nlohmann) : Prop extends Accesses nlohmann where
  dumps : ∀ json indent, (nlohmann.dump json indent).isSome = json.valid
  parses : ∀ text json, nlohmann.parse text = some json → json.valid
  distinct : ∀ text json, nlohmann.parse text = some json → DistinctKeys json

def WritesValid (nlohmann : Nlohmann) (baseline root : Json) : Prop :=
  ∀ item ∈ nlohmann.items root, (∃ members, root = .object members) ∨ nlohmann.contains baseline item.1 = false →
    Json.utf8 item.1 ∧ item.2.valid

theorem validMembers_iff : Json.validMembers members ↔ ∀ item ∈ members, Json.utf8 item.1 ∧ item.2.valid := by
  induction members with
  | nil => exact ⟨fun _ => nofun, fun _ => rfl⟩
  | cons item members ih =>
      rw [Json.validMembers, Bool.and_eq_true, Bool.and_eq_true, ih, List.forall_mem_cons]

theorem write_safe (documented : Documented nlohmann) (content : Text) (writable : Bool) (json : Json)
    (indent : Int) : Safe (some (write nlohmann { content := some content, writable } json indent)) content ↔
        writable = false ∨ content = [] ∨ json.valid := by
  have dumps := documented.dumps json indent
  cases writable with
  | false => exact ⟨fun _ => Or.inl rfl, fun _ => ⟨false, some content, rfl, fun _ => rfl⟩⟩
  | true =>
      rw [write, if_pos rfl, ← dumps]
      cases nlohmann.dump json indent with
      | none =>
          simp [Safe, eq_comm]
      | some text =>
          simp [Safe]

theorem not_safe_none (content : Text) : ¬ Safe none content := by
  rintro ⟨_, _, thrown, _⟩
  cases thrown

theorem mergeOrdered_null (accesses : Accesses nlohmann) (distinct : DistinctKeys root) :
    mergeOrdered nlohmann .null root =
      some (if nlohmann.items root = [] then .null else .object (nlohmann.items root)) := by
  have all := appendNew_all accesses (accesses.itemsDistinct root distinct) []
  rw [missing_nil, List.nil_append] at all
  rw [mergeOrdered, accesses.itemsNull]
  change (nlohmann.items root).foldlM (appendNew nlohmann) .null = _
  cases items : nlohmann.items root with
  | nil => rfl
  | cons item rest =>
      have first : appendNew nlohmann .null item = appendNew nlohmann (.object []) item := by
        have absent : ¬ nlohmann.contains (.object []) item.1 = true :=
          fun found => List.not_mem_nil ((accesses.containsObject _ _).mp found)
        rw [appendNew, appendNew, accesses.containsOther .null _ nofun, if_neg Bool.false_ne_true, if_neg absent,
          accesses.assignNull, accesses.assignObject]
        rfl
      rw [items] at all
      rw [if_neg (List.cons_ne_nil _ _), List.foldlM_cons, first, ← List.foldlM_cons]
      exact all

theorem find_of_items_nil (accesses : Accesses nlohmann) (empty : nlohmann.items root = []) (key : Text) :
    find (membersOf root) key = none := by
  cases root with
  | object members =>
      rw [accesses.itemsObject] at empty
      rw [membersOf, empty]
      rfl
  | _ => rfl

theorem contains_other (accesses : Accesses nlohmann) (other : ¬ TakesKeys baseline) (key : Text) :
    nlohmann.contains baseline key = false := by
  apply accesses.containsOther
  rintro members rfl
  exact other trivial

theorem updateExisting_other (accesses : Accesses nlohmann) (other : ¬ TakesKeys baseline) {items : List (Text × Json)}
    {sorted : Json} (ran : items.foldlM (updateExisting nlohmann root) baseline = some sorted) : sorted = baseline := by
  induction items with
  | nil => exact (Option.some.inj ran).symm
  | cons item rest ih =>
      rw [List.foldlM_cons, updateExisting_eq accesses] at ran
      cases found : find (membersOf root) item.1 with
      | none =>
          rw [found] at ran
          exact ih ran
      | some value =>
          simp only [found, accesses.assignOther baseline _ _ other, Option.bind_eq_bind, Option.bind_none,
            reduceCtorEq] at ran

theorem mergeOrdered_other (accesses : Accesses nlohmann) (other : ¬ TakesKeys baseline) (root : Json) :
    mergeOrdered nlohmann baseline root = if nlohmann.items root = [] then some baseline else none := by
  cases items : nlohmann.items root with
  | nil =>
      have unchanged : ∀ rest : List (Text × Json),
          rest.foldlM (updateExisting nlohmann root) baseline = some baseline := by
        intro rest
        induction rest with
        | nil => rfl
        | cons item rest ih =>
            rw [List.foldlM_cons, updateExisting_eq accesses, find_of_items_nil accesses items]
            exact ih
      rw [mergeOrdered, unchanged, items]
      rfl
  | cons item rest =>
      rw [if_neg (List.cons_ne_nil _ _), mergeOrdered, items]
      cases first : (nlohmann.items baseline).foldlM (updateExisting nlohmann root) baseline with
      | none => rfl
      | some sorted =>
          obtain rfl := updateExisting_other accesses other first
          simp only [Option.bind_eq_bind, Option.bind_some, List.foldlM_cons, appendNew, contains_other accesses other,
            accesses.assignOther sorted _ _ other, Bool.false_eq_true, if_false, Option.bind_none]

theorem object_valid_iff : (Json.object members).valid ↔ ∀ item ∈ members, Json.utf8 item.1 ∧ item.2.valid :=
  validMembers_iff

theorem mem_items_of_find (accesses : Accesses nlohmann) {key : Text} {value : Json}
    (found : find (membersOf root) key = some value) :
    (∃ members, root = .object members) ∧ (key, value) ∈ nlohmann.items root := by
  cases root with
  | object members =>
      rw [accesses.itemsObject]
      exact ⟨⟨members, rfl⟩, mem_of_find found⟩
  | _ => cases found

theorem mem_updated_of_mem {r : List (Text × Json)} (distinct : (keys r).Nodup) {item : Text × Json} (member : item ∈ r)
    (there : item.1 ∈ keys members) : item ∈ updated members (find r) := by
  obtain ⟨old, member', same⟩ := List.mem_map.mp there
  refine List.mem_map.mpr ⟨old, member', ?_⟩
  rw [same, find_of_mem distinct member, Option.getD_some]

theorem merged_valid_iff (accesses : Accesses nlohmann) (valid : (Json.object members).valid)
    (distinctRoot : DistinctKeys root) :
    (Json.object (updated members (find (membersOf root)) ++ missing members (nlohmann.items root))).valid ↔
      WritesValid nlohmann (.object members) root := by
  rw [object_valid_iff] at valid
  rw [object_valid_iff, List.forall_mem_append]
  constructor
  · rintro ⟨old, new⟩ item member overwrites
    by_cases there : item.1 ∈ keys members
    · rcases overwrites with ⟨r, rfl⟩ | absent
      · rw [accesses.itemsObject] at member
        exact old item (mem_updated_of_mem (distinctRoot r rfl) member there)
      · rw [(accesses.containsObject _ _).mpr there] at absent
        cases absent
    · exact new item (mem_missing.mpr ⟨member, there⟩)
  · intro writes
    constructor
    · intro item member
      obtain ⟨old, there, rfl⟩ := List.mem_map.mp member
      refine ⟨(valid old there).1, ?_⟩
      cases found : find (membersOf root) old.1 with
      | none => exact (valid old there).2
      | some value =>
          obtain ⟨object, member'⟩ := mem_items_of_find accesses found
          exact (writes (old.1, value) member' (Or.inl object)).2
    · intro item member
      obtain ⟨member, absent⟩ := mem_missing.mp member
      apply writes item member
      right
      exact Bool.eq_false_iff.mpr (mt (accesses.containsObject _ _).mp absent)

theorem writesValid_of_items_nil (empty : nlohmann.items root = []) : WritesValid nlohmann baseline root := by
  intro item member
  rw [empty] at member
  cases member

theorem mergeOrdered_spec (accesses : Accesses nlohmann) (valid : baseline.valid) (distinct : DistinctKeys baseline)
    (distinctRoot : DistinctKeys root) (accepts : TakesKeys baseline ∨ nlohmann.items root = []) :
    ∃ sorted, mergeOrdered nlohmann baseline root = some sorted ∧
      (sorted.valid ↔ WritesValid nlohmann baseline root) := by
  by_cases takes : TakesKeys baseline
  · cases baseline with
    | object members =>
        exact ⟨_, mergeOrdered_object accesses (distinct members rfl) distinctRoot,
          merged_valid_iff accesses valid distinctRoot⟩
    | null =>
        refine ⟨_, mergeOrdered_null accesses distinctRoot, ?_⟩
        by_cases empty : nlohmann.items root = []
        · rw [if_pos empty]
          exact iff_of_true rfl (writesValid_of_items_nil empty)
        · rw [if_neg empty, object_valid_iff]
          constructor
          · exact fun all item member _ => all item member
          · exact fun writes item member => writes item member (Or.inr (accesses.containsOther .null _ nofun))
    | _ => cases takes
  · have empty := accepts.resolve_left takes
    exact ⟨baseline, by rw [mergeOrdered_other accesses takes, if_pos empty],
      iff_of_true valid (writesValid_of_items_nil empty)⟩

theorem readBaseline_documented (documented : Documented nlohmann) (content : Option Text) :
    (readBaseline nlohmann content).valid ∧ DistinctKeys (readBaseline nlohmann content) := by
  have nothing : (Json.object []).valid ∧ DistinctKeys (.object []) := by
    refine ⟨rfl, ?_⟩
    rintro members same
    cases same
    exact List.nodup_nil
  cases content with
  | none => exact nothing
  | some text =>
      cases parsed : nlohmann.parse text with
      | none => rwa [readBaseline, parsed, Option.getD_none]
      | some json =>
          rw [readBaseline, parsed, Option.getD_some]
          exact ⟨documented.parses text json parsed, documented.distinct text json parsed⟩

theorem saves_safely_iff (documented : Documented nlohmann) (distinct : DistinctKeys root) (content : Text)
    (writable prettify : Bool) :
    (Safe (some (saveToFile nlohmann { content := some content, writable } root prettify)) content ↔
      writable = false ∨ content = [] ∨ root.valid) ∧
    (Safe (saveToFileOrdered nlohmann { content := some content, writable } root prettify) content ↔
      (TakesKeys (readBaseline nlohmann (some content)) ∨ nlohmann.items root = []) ∧
      (writable = false ∨ content = [] ∨ WritesValid nlohmann (readBaseline nlohmann (some content)) root)) := by
  refine ⟨write_safe documented content writable root _, ?_⟩
  obtain ⟨valid, distinctB⟩ := readBaseline_documented documented (some content)
  rw [saveToFileOrdered]
  generalize readBaseline nlohmann (some content) = baseline at valid distinctB ⊢
  by_cases accepts : TakesKeys baseline ∨ nlohmann.items root = []
  · obtain ⟨sorted, merged, written⟩ := mergeOrdered_spec documented.toAccesses valid distinctB distinct accepts
    rw [merged, Option.map_some, write_safe documented, written, and_iff_right accepts]
  · obtain ⟨other, nonempty⟩ := not_or.mp accepts
    rw [mergeOrdered_other documented.toAccesses other, if_neg nonempty, Option.map_none]
    exact iff_of_false (not_safe_none content) fun safe => accepts safe.1

section Failing

def parseStored (text : Text) : Option Json :=
  if text = ascii "[]" then some (.array [])
  else if text = storedText then some (.object [(ascii "b", .null)])
  else none

def dumpValid (json : Json) (indent : Int) : Option Text :=
  if json.valid then some ((dumpPair json indent).getD (ascii "\x7b\n    \"a\": null\n\x7d")) else none

theorem documented_stored : Documented (accessing parseStored dumpValid) := by
  have parsed : ∀ text json, parseStored text = some json →
      json = .array [] ∨ json = .object [(ascii "b", .null)] := by
    intro text json found
    unfold parseStored at found
    split at found
    · exact Or.inl (Option.some.inj found).symm
    · split at found
      · exact Or.inr (Option.some.inj found).symm
      · cases found
  refine { accesses_accessing parseStored dumpValid with dumps := ?_, parses := ?_, distinct := ?_ }
  · intro json indent
    show (dumpValid json indent).isSome = _
    rw [dumpValid]
    cases json.valid with
    | true => rfl
    | false => rfl
  · intro text json found
    rcases parsed text json found with rfl | rfl
    · rfl
    · rfl
  · intro text json found members object
    rcases parsed text json found with rfl | rfl
    · cases object
    · cases object
      decide

theorem saves_safely_object :
    let nlohmann := accessing parseStored dumpValid
    let file : File := { content := some (ascii "\x7b\"b\":null\x7d"), writable := true }
    let root : Json := .object [(ascii "a", .null)]
    Safe (some (saveToFile nlohmann file root true)) (ascii "\x7b\"b\":null\x7d") ∧
      Safe (saveToFileOrdered nlohmann file root true) (ascii "\x7b\"b\":null\x7d") := by
  intro nlohmann file root
  have distinct : DistinctKeys root := by
    intro members same
    obtain rfl : [(ascii "a", .null)] = members := Json.object.inj same
    decide
  obtain ⟨plain, ordered⟩ := saves_safely_iff documented_stored distinct (ascii "\x7b\"b\":null\x7d") true true
  have baseline : readBaseline nlohmann file.content = .object [(ascii "b", .null)] := by rfl
  refine ⟨plain.mpr (Or.inr (Or.inr rfl)), ordered.mpr ⟨Or.inl ?_, Or.inr (Or.inr ?_)⟩⟩
  · show TakesKeys (readBaseline nlohmann file.content)
    rw [baseline]
    trivial
  · intro item member _
    obtain rfl := List.mem_singleton.mp member
    exact ⟨rfl, rfl⟩

/-- A string that is not UTF-8 empties the file, and an array in the file throws. -/
theorem saves_unsafely :
    let nlohmann := accessing parseStored dumpValid
    let file : File := { content := some (ascii "[]"), writable := true }
    Documented nlohmann ∧
      ¬ Safe (some (saveToFile nlohmann file (.string [0xFF]) true)) (ascii "[]") ∧
      ¬ Safe (saveToFileOrdered nlohmann file (.object [(ascii "a", .null)]) true) (ascii "[]") := by
  intro nlohmann file
  refine ⟨documented_stored, ?_, ?_⟩
  · rintro ⟨saved, after, returned, kept⟩
    cases returned
    exact absurd (kept rfl) (by decide)
  · exact not_safe_none _

end Failing

end KnowledgeAcquisition.Proof.Util
