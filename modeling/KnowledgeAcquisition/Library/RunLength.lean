import Mathlib.Data.List.Chain

/-!
# Run lengths

Lists as tokens of a count and an element, with counts up to some bound. A token list in which a run goes on in
the next token only from a full one is the shortest there is.
-/

namespace KnowledgeAcquisition.Library.RunLength

variable {α : Type*} {bound : Nat}

def expand (tokens : List (Nat × α)) : List α := tokens.flatMap fun token => List.replicate token.1 token.2

@[simp] theorem expand_nil : expand ([] : List (Nat × α)) = [] := rfl

@[simp] theorem expand_cons (token : Nat × α) (tokens : List (Nat × α)) :
    expand (token :: tokens) = List.replicate token.1 token.2 ++ expand tokens := rfl

theorem expand_append (tokens later : List (Nat × α)) : expand (tokens ++ later) = expand tokens ++ expand later :=
  List.flatMap_append

/-- Two adjacent tokens share an element only if the first one is full. -/
structure Full (bound : Nat) (tokens : List (Nat × α)) : Prop where
  counts : ∀ token ∈ tokens, 1 ≤ token.1 ∧ token.1 ≤ bound
  adjacent : tokens.IsChain fun token next => token.2 = next.2 → token.1 = bound

theorem Full.nil : Full bound ([] : List (Nat × α)) := ⟨nofun, .nil⟩

theorem Full.snoc {tokens : List (Nat × α)} (full : Full bound tokens) {count : Nat} {x : α} (positive : 1 ≤ count)
    (fits : count ≤ bound) (apart : ∀ last ∈ tokens.getLast?, last.2 = x → last.1 = bound) :
    Full bound (tokens ++ [(count, x)]) := by
  refine ⟨?_, full.adjacent.append (.singleton _) ?_⟩
  · intro token member
    cases List.mem_append.mp member with
    | inl old => exact full.counts token old
    | inr new =>
        rw [List.mem_singleton.mp new]
        exact ⟨positive, fits⟩
  · intro last isLast next isNext same
    obtain rfl : (count, x) = next := by simpa using isNext
    exact apart last isLast same

theorem Full.tail {token : Nat × α} {tokens : List (Nat × α)} (full : Full bound (token :: tokens)) :
    Full bound tokens :=
  ⟨fun other member => full.counts other (List.mem_cons_of_mem _ member), full.adjacent.tail⟩

/-! ## The shortest list -/

theorem cut_replicate {a b : Nat} (less : a ≤ b) {x y : α} {rest later : List α}
    (same : List.replicate a x ++ rest = List.replicate b y ++ later) : rest = List.replicate (b - a) y ++ later := by
  have dropped := congrArg (List.drop a) same
  rwa [List.drop_left' (List.length_replicate ..), List.drop_append_of_le_length (by simpa using less),
    List.drop_replicate] at dropped

theorem replicate_head {a b : Nat} (some_ : 1 ≤ a) (some_' : 1 ≤ b) {x y : α} {rest later : List α}
    (same : List.replicate a x ++ rest = List.replicate b y ++ later) : x = y := by
  obtain ⟨a, rfl⟩ := Nat.exists_eq_add_of_le' some_
  obtain ⟨b, rfl⟩ := Nat.exists_eq_add_of_le' some_'
  exact (List.cons.inj same).1

theorem Full.run_le {count length : Nat} {x y : α} {tokens : List (Nat × α)} {rest : List α}
    (full : Full bound ((count, x) :: tokens)) (fits : length ≤ bound) (some_ : 1 ≤ length)
    (same : List.replicate length y ++ rest = expand ((count, x) :: tokens)) : length ≤ count := by
  by_contra longer
  have head := replicate_head some_ (full.counts _ List.mem_cons_self).1 same
  subst head
  have later := cut_replicate (Nat.le_of_not_le longer) same.symm
  cases tokens with
  | nil =>
      have size := congrArg List.length later
      simp at size
      omega
  | cons next tokens =>
      have first := replicate_head (full.tail.counts next List.mem_cons_self).1 (by omega : 1 ≤ length - count) later
      have whole : count = bound := (List.isChain_cons_cons.mp full.adjacent).1 first.symm
      omega

theorem Full.length_le_behind {tokens other : List (Nat × α)} (full : Full bound tokens)
    (fits : ∀ token ∈ other, token.1 ≤ bound) (behind : Nat) (x : α)
    (same : expand other = List.replicate behind x ++ expand tokens) : tokens.length ≤ other.length := by
  induction other generalizing tokens behind x with
  | nil =>
      cases tokens with
      | nil => exact Nat.le_refl 0
      | cons token tokens =>
          have size := congrArg List.length same
          have positive := (full.counts token List.mem_cons_self).1
          simp at size
          omega
  | cons first other ih =>
      obtain ⟨length, y⟩ := first
      have fits' : ∀ token ∈ other, token.1 ≤ bound := fun token member => fits token (List.mem_cons_of_mem _ member)
      rw [expand_cons] at same
      by_cases short : length ≤ behind
      · exact Nat.le_succ_of_le (ih full fits' (behind - length) x (cut_replicate short same))
      · have start := cut_replicate (Nat.le_of_not_le short) same.symm
        cases tokens with
        | nil => exact Nat.zero_le _
        | cons token tokens =>
            obtain ⟨count, z⟩ := token
            have bounded : length - behind ≤ bound := (Nat.sub_le _ _).trans (fits _ List.mem_cons_self)
            have inside := full.run_le bounded (by omega) start.symm
            have rest := cut_replicate inside start.symm
            exact Nat.succ_le_succ (ih full.tail fits' (count - (length - behind)) z rest)

theorem Full.length_le {tokens other : List (Nat × α)} (full : Full bound tokens)
    (fits : ∀ token ∈ other, token.1 ≤ bound) (same : expand other = expand tokens) :
    tokens.length ≤ other.length := by
  cases tokens with
  | nil => exact Nat.zero_le _
  | cons token tokens => exact full.length_le_behind fits 0 token.2 same

end KnowledgeAcquisition.Library.RunLength
