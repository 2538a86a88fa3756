import Mathlib.Data.List.Nodup
import Mathlib.Logic.Function.Basic

/-!
# Singly and doubly linked lists over a store of nodes

A store gives every node index `i` a forward link `next i` and a backward link `prev i`. `Chain` and
`Queue` say that a list of indices is what a traversal of the links visits; the operations a list
implementation performs on the links are point updates of the two functions, and each has one lemma
saying which list the links hold afterwards.
-/

namespace KnowledgeAcquisition.Library.Links

variable {ι : Type*}

/-- Following `next` from `start` visits `is` and ends. -/
def Chain (next : ι → Option ι) : Option ι → List ι → Prop
  | start, [] => start = none
  | start, i :: is => start = some i ∧ Chain next (next i) is

/-- A doubly linked stretch `is` with neighbours `before` and `after`. -/
def Segment (next prev : ι → Option ι) : Option ι → List ι → Option ι → Prop
  | _, [], _ => True
  | before, i :: is, after =>
      prev i = before ∧ next i = is.head?.or after ∧ Segment next prev (some i) is after

structure Queue (next prev : ι → Option ι) (head tail : Option ι) (q : List ι) : Prop where
  head_eq : head = q.head?
  tail_eq : tail = q.getLast?
  linked : Segment next prev none q none
  nodup : q.Nodup

theorem Chain.congr {next next' : ι → Option ι} {start : Option ι} {is : List ι}
    (same : ∀ i ∈ is, next' i = next i) (chain : Chain next start is) : Chain next' start is := by
  induction is generalizing start with
  | nil => exact chain
  | cons i is ih =>
      refine ⟨chain.1, ?_⟩
      rw [same i List.mem_cons_self]
      exact ih (fun j member => same j (List.mem_cons_of_mem i member)) chain.2

theorem Segment.congr {next next' prev prev' : ι → Option ι} {before after : Option ι} {is : List ι}
    (sameNext : ∀ i ∈ is, next' i = next i) (samePrev : ∀ i ∈ is, prev' i = prev i)
    (segment : Segment next prev before is after) : Segment next' prev' before is after := by
  induction is generalizing before with
  | nil => trivial
  | cons i is ih =>
      obtain ⟨back, forward, rest⟩ := segment
      refine ⟨?_, ?_, ih ?_ ?_ rest⟩
      · rw [samePrev i List.mem_cons_self, back]
      · rw [sameNext i List.mem_cons_self, forward]
      · exact fun j member => sameNext j (List.mem_cons_of_mem i member)
      · exact fun j member => samePrev j (List.mem_cons_of_mem i member)

theorem segment_append {next prev : ι → Option ι} {before after : Option ι} {xs ys : List ι} :
    Segment next prev before (xs ++ ys) after ↔
      Segment next prev before xs (ys.head?.or after) ∧
      Segment next prev (xs.getLast?.or before) ys after := by
  induction xs generalizing before with
  | nil => simp [Segment]
  | cons x xs ih =>
      have last : (x :: xs).getLast?.or before = xs.getLast?.or (some x) := by
        cases xs with
        | nil => rfl
        | cons y xs => rw [List.getLast?_cons_cons, List.getLast?_cons]; rfl
      have first : (xs ++ ys).head?.or after = xs.head?.or (ys.head?.or after) := by
        rw [List.head?_append, Option.or_assoc]
      simp only [List.cons_append, Segment, ih, last, first, and_assoc]

theorem Queue.congr {next next' prev prev' : ι → Option ι} {head tail : Option ι} {q : List ι}
    (sameNext : ∀ i ∈ q, next' i = next i) (samePrev : ∀ i ∈ q, prev' i = prev i)
    (queue : Queue next prev head tail q) : Queue next' prev' head tail q :=
  ⟨queue.head_eq, queue.tail_eq, queue.linked.congr sameNext samePrev, queue.nodup⟩

theorem queue_nil (next prev : ι → Option ι) : Queue next prev none none [] :=
  ⟨rfl, rfl, trivial, List.nodup_nil⟩

theorem Queue.singleton {next prev : ι → Option ι} {x : ι} (noNext : next x = none)
    (noPrev : prev x = none) : Queue next prev (some x) (some x) [x] :=
  ⟨rfl, rfl, ⟨noPrev, noNext, trivial⟩, List.nodup_singleton x⟩

theorem Segment.prev_mem {next prev : ι → Option ι} {before after : Option ι} {is : List ι}
    (segment : Segment next prev before is after) {j : ι} (member : j ∈ is) :
    prev j = before ∨ ∃ k ∈ is, prev j = some k := by
  induction is generalizing before with
  | nil => cases member
  | cons x is ih =>
      obtain ⟨back, -, rest⟩ := segment
      rcases List.mem_cons.mp member with rfl | member
      · exact Or.inl back
      · rcases ih rest member with first | ⟨k, found, link⟩
        · exact Or.inr ⟨x, List.mem_cons_self, first⟩
        · exact Or.inr ⟨k, List.mem_cons_of_mem x found, link⟩

theorem Segment.prev_eq_before {next prev : ι → Option ι} {before after : Option ι} {is : List ι}
    (segment : Segment next prev before is after) (outside : ∀ i ∈ is, before ≠ some i)
    {j : ι} (member : j ∈ is) (back : prev j = before) : is.head? = some j := by
  cases is with
  | nil => cases member
  | cons x is =>
      rcases List.mem_cons.mp member with rfl | member
      · rfl
      · -- a later node points back into the segment, never to `before`
        exfalso
        rcases segment.2.2.prev_mem member with link | ⟨k, found, link⟩
        · exact outside x List.mem_cons_self (back.symm.trans link)
        · exact outside k (List.mem_cons_of_mem x found) (back.symm.trans link)

theorem Segment.inverse {next prev : ι → Option ι} {before : Option ι} {is : List ι}
    (segment : Segment next prev before is none) (nodup : is.Nodup)
    (outside : ∀ i ∈ is, before ≠ some i) {i j : ι} (member : i ∈ is) :
    next i = some j ↔ j ∈ is ∧ prev j = some i := by
  induction is generalizing before with
  | nil => cases member
  | cons x is ih =>
      obtain ⟨back, forward, rest⟩ := segment
      obtain ⟨absent, nodup⟩ := List.nodup_cons.mp nodup
      have inner : ∀ k ∈ is, some x ≠ some k := by
        rintro k found same
        exact absent (Option.some.inj same ▸ found)
      have notFirst : ∀ k ∈ x :: is, prev x ≠ some k := fun k found => back ▸ outside k found
      rcases List.mem_cons.mp member with rfl | found
      · rw [forward, Option.or_none]
        constructor
        · intro first
          have here := List.mem_of_head? first
          cases is with
          | nil => cases first
          | cons y is =>
              obtain rfl : y = j := Option.some.inj first
              exact ⟨List.mem_cons_of_mem i here, rest.1⟩
        · rintro ⟨here, link⟩
          rcases List.mem_cons.mp here with rfl | here
          · exact absurd link (notFirst j List.mem_cons_self)
          · exact rest.prev_eq_before inner here link
      · rw [ih rest nodup inner found]
        constructor
        · exact fun ⟨here, link⟩ => ⟨List.mem_cons_of_mem x here, link⟩
        · rintro ⟨here, link⟩
          rcases List.mem_cons.mp here with rfl | here
          · exact absurd link (notFirst i member)
          · exact ⟨here, link⟩

theorem Queue.inverse {next prev : ι → Option ι} {head tail : Option ι} {q : List ι}
    (queue : Queue next prev head tail q) {i j : ι} (member : i ∈ q) :
    next i = some j ↔ j ∈ q ∧ prev j = some i :=
  queue.linked.inverse queue.nodup (fun _ _ => nofun) member

theorem Queue.next_mem {next prev : ι → Option ι} {head tail : Option ι} {q : List ι}
    (queue : Queue next prev head tail q) {i j : ι} (member : i ∈ q) (link : next i = some j) : j ∈ q :=
  ((queue.inverse member).mp link).1

theorem Queue.prev_mem {next prev : ι → Option ι} {head tail : Option ι} {q : List ι}
    (queue : Queue next prev head tail q) {i j : ι} (member : i ∈ q) (link : prev i = some j) : j ∈ q := by
  rcases queue.linked.prev_mem member with none | ⟨k, found, back⟩
  · exact absurd (link.symm.trans none) nofun
  · rw [link] at back
    exact Option.some.inj back ▸ found

section Updates

variable [DecidableEq ι]

theorem update_outside {α : Type*} {f : ι → α} {a : ι} {v : α} {is : List ι} (absent : a ∉ is) :
    ∀ i ∈ is, Function.update f a v i = f i := by
  intro i member
  apply Function.update_of_ne
  rintro rfl
  exact absent member

theorem Segment.set_after {next prev : ι → Option ι} {before after : Option ι} {is : List ι} {last : ι}
    (segment : Segment next prev before is after) (nodup : is.Nodup) (ends : is.getLast? = some last)
    (after' : Option ι) : Segment (Function.update next last after') prev before is after' := by
  obtain ⟨front, rfl⟩ := List.getLast?_eq_some_iff.mp ends
  obtain ⟨start, back, -, -⟩ := segment_append.mp segment
  have absent : last ∉ front := by
    intro member
    exact (List.disjoint_of_nodup_append nodup) member (List.mem_singleton_self last)
  exact segment_append.mpr
    ⟨start.congr (update_outside absent) (fun _ _ => rfl), back, by simp, trivial⟩

theorem Segment.set_before {next prev : ι → Option ι} {before after : Option ι} {first : ι} {is : List ι}
    (segment : Segment next prev before (first :: is) after) (nodup : (first :: is).Nodup)
    (before' : Option ι) :
    Segment next (Function.update prev first before') before' (first :: is) after := by
  obtain ⟨-, forward, rest⟩ := segment
  have absent : first ∉ is := (List.nodup_cons.mp nodup).1
  exact ⟨by simp, forward, rest.congr (fun _ _ => rfl) (update_outside absent)⟩

theorem Queue.append {next prev : ι → Option ι} {head : Option ι} {last x : ι} {q : List ι}
    (queue : Queue next prev head (some last) q) (fresh : x ∉ q) (detached : next x = none) :
    Queue (Function.update next last (some x)) (Function.update prev x (some last)) head (some x)
      (q ++ [x]) := by
  have ends : q.getLast? = some last := queue.tail_eq.symm
  have member : last ∈ q := List.mem_of_getLast? ends
  refine ⟨?_, by simp, ?_, ?_⟩
  · cases q with
    | nil => cases member
    | cons y q => exact queue.head_eq
  · refine segment_append.mpr ⟨?_, ?_, ?_, trivial⟩
    · exact (queue.linked.set_after queue.nodup ends (some x)).congr (fun _ _ => rfl)
        (update_outside fresh)
    · simp [ends]
    · have other : x ≠ last := fun same => fresh (same ▸ member)
      simpa [Function.update_of_ne other] using detached
  · exact List.nodup_append.mpr ⟨queue.nodup, by simp, fun a found b single same =>
      fresh (by rw [List.mem_singleton] at single; exact single ▸ same ▸ found)⟩

def unlinkNext (next prev : ι → Option ι) (i : ι) : ι → Option ι :=
  match prev i with
  | none => next
  | some before => Function.update next before (next i)

def unlinkPrev (next prev : ι → Option ι) (i : ι) : ι → Option ι :=
  match next i with
  | none => prev
  | some after => Function.update prev after (prev i)

theorem unlinkNext_self (next prev : ι → Option ι) (i : ι) : unlinkNext next prev i i = next i := by
  unfold unlinkNext
  cases prev i with
  | none => rfl
  | some before => by_cases here : i = before <;> simp [here]

theorem unlinkPrev_self (next prev : ι → Option ι) (i : ι) : unlinkPrev next prev i i = prev i :=
  unlinkNext_self prev next i

theorem Queue.unlinkNext_outside {next prev : ι → Option ι} {head tail : Option ι} {q : List ι} {i j : ι}
    (queue : Queue next prev head tail q) (member : i ∈ q) (outside : j ∉ q) :
    unlinkNext next prev i j = next j := by
  unfold unlinkNext
  cases back : prev i with
  | none => rfl
  | some before =>
      apply Function.update_of_ne
      rintro rfl
      exact outside (queue.prev_mem member back)

theorem Queue.unlinkPrev_outside {next prev : ι → Option ι} {head tail : Option ι} {q : List ι} {i j : ι}
    (queue : Queue next prev head tail q) (member : i ∈ q) (outside : j ∉ q) :
    unlinkPrev next prev i j = prev j := by
  unfold unlinkPrev
  cases forward : next i with
  | none => rfl
  | some after =>
      apply Function.update_of_ne
      rintro rfl
      exact outside (queue.next_mem member forward)

section Unlink

variable {next prev : ι → Option ι} {xs ys : List ι} {i : ι}

theorem head_unlink (notInXs : i ∉ xs) (forward : next i = ys.head?) :
    (if some i = (xs ++ i :: ys).head? then next i else (xs ++ i :: ys).head?) = (xs ++ ys).head? := by
  cases xs with
  | nil => simpa using forward
  | cons x xs =>
      have other : i ≠ x := fun same => notInXs (same ▸ List.mem_cons_self)
      simp [other]

theorem getLast_unlink (notInYs : i ∉ ys) (back : prev i = xs.getLast?) :
    (if some i = (xs ++ i :: ys).getLast? then prev i else (xs ++ i :: ys).getLast?) = (xs ++ ys).getLast? := by
  cases ys with
  | nil => simpa using back
  | cons y ys =>
      have last : (xs ++ i :: y :: ys).getLast? = (xs ++ y :: ys).getLast? := by
        rw [List.getLast?_append, List.getLast?_append, List.getLast?_cons_cons]
      have other : some i ≠ (xs ++ y :: ys).getLast? := by
        intro same
        rw [List.getLast?_append, List.getLast?_cons, Option.some_or, ← List.getLast?_cons] at same
        exact notInYs (List.mem_of_getLast? same.symm)
      rw [last, if_neg other]

theorem Segment.unlink_before {before after : Option ι} (left : Segment next prev before xs after) (nodup : xs.Nodup)
    (disjoint : ∀ y ∈ ys, y ∉ xs) (back : prev i = xs.getLast?) (forward : next i = ys.head?) :
    Segment (unlinkNext next prev i) (unlinkPrev next prev i) before xs (next i) := by
  have outside : ∀ j ∈ xs, unlinkPrev next prev i j = prev j := by
    unfold unlinkPrev
    cases ys with
    | nil => simp [forward]
    | cons y ys =>
        rw [forward]
        exact update_outside (disjoint y List.mem_cons_self)
  rcases ends : xs.getLast? with - | last
  · rw [List.getLast?_eq_none_iff.mp ends]
    trivial
  · have rewired : unlinkNext next prev i = Function.update next last (next i) := by
      simp [unlinkNext, back, ends]
    rw [rewired]
    exact (left.set_after nodup ends _).congr (fun _ _ => rfl) outside

theorem Segment.unlink_after {before after : Option ι} (right : Segment next prev before ys after) (nodup : ys.Nodup)
    (disjoint : ∀ x ∈ xs, x ∉ ys) (back : prev i = xs.getLast?) (forward : next i = ys.head?) :
    Segment (unlinkNext next prev i) (unlinkPrev next prev i) (prev i) ys after := by
  have outside : ∀ j ∈ ys, unlinkNext next prev i j = next j := by
    unfold unlinkNext
    rcases ends : xs.getLast? with - | last
    · simp [back, ends]
    · rw [back, ends]
      exact update_outside (disjoint last (List.mem_of_getLast? ends))
  cases ys with
  | nil => trivial
  | cons y ys =>
      have rewired : unlinkPrev next prev i = Function.update prev y (prev i) := by
        simp [unlinkPrev, forward]
      rw [rewired]
      exact (right.set_before nodup _).congr outside (fun _ _ => rfl)

end Unlink

theorem Queue.unlink {next prev : ι → Option ι} {head tail : Option ι} {q : List ι} {i : ι}
    (queue : Queue next prev head tail q) (member : i ∈ q) :
    Queue (unlinkNext next prev i) (unlinkPrev next prev i)
      (if some i = head then next i else head) (if some i = tail then prev i else tail)
      (q.erase i) := by
  obtain ⟨xs, ys, rfl⟩ := List.append_of_mem member
  have nodup := queue.nodup
  obtain ⟨xsNodup, iysNodup, disjoint⟩ := List.nodup_append.mp nodup
  obtain ⟨notInYs, ysNodup⟩ := List.nodup_cons.mp iysNodup
  have notInXs : i ∉ xs := fun found => disjoint i found i List.mem_cons_self rfl
  have apart : ∀ x ∈ xs, x ∉ ys := fun x left right => disjoint x left x (List.mem_cons_of_mem i right) rfl
  obtain ⟨left, back, forward, right⟩ := segment_append.mp queue.linked
  rw [Option.or_none] at back forward
  rw [List.erase_append_right _ notInXs, List.erase_cons_head, queue.head_eq, queue.tail_eq]
  refine ⟨head_unlink notInXs forward, getLast_unlink notInYs back, segment_append.mpr ⟨?_, ?_⟩, ?_⟩
  · rw [Option.or_none, ← forward]
    exact left.unlink_before xsNodup (fun y right left => apart y left right) back forward
  · rw [Option.or_none, ← back]
    exact right.unlink_after ysNodup apart back forward
  · exact nodup.sublist (List.Sublist.append_left (List.sublist_cons_self i ys) xs)

end Updates

end KnowledgeAcquisition.Library.Links
