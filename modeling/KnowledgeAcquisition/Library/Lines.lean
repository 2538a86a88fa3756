import Mathlib.Data.List.Basic

/-!
# Text in lines

`lines separator text` are the pieces of a text that a separator ends, and the unfinished piece behind the last
separator unless it is empty. A text that is appended starts a line of its own where the text before it is terminated.
-/

namespace KnowledgeAcquisition.Library.Lines

variable {α : Type*} [DecidableEq α] {separator : α} {text front line : List α}

def lines (separator : α) : List α → List (List α)
  | [] => []
  | a :: rest =>
      if a = separator then [] :: lines separator rest
      else
        match lines separator rest with
        | [] => [[a]]
        | line :: later => (a :: line) :: later

def Terminated (separator : α) (text : List α) : Prop := text = [] ∨ text.getLast? = some separator

instance (separator : α) (text : List α) : Decidable (Terminated separator text) :=
  inferInstanceAs (Decidable (_ ∨ _))

omit [DecidableEq α] in
theorem terminated_ended (front : List α) : Terminated separator (front ++ [separator]) :=
  Or.inr List.getLast?_concat

omit [DecidableEq α] in
theorem Terminated.append (first : Terminated separator front) (second : Terminated separator text) :
    Terminated separator (front ++ text) := by
  rcases second with rfl | last
  · rwa [List.append_nil]
  · apply Or.inr
    rw [List.getLast?_append, last, Option.some_or]

theorem lines_line (clean : separator ∉ line) (rest : List α) :
    lines separator (line ++ separator :: rest) = line :: lines separator rest := by
  induction line with
  | nil => exact if_pos rfl
  | cons a line ih =>
      obtain ⟨other, clean⟩ := not_or.mp (mt List.mem_cons.mpr clean)
      rw [List.cons_append, lines, if_neg (Ne.symm other), ih clean]

theorem lines_unfinished (clean : separator ∉ line) (started : line ≠ []) : lines separator line = [line] := by
  induction line with
  | nil => exact absurd rfl started
  | cons a line ih =>
      obtain ⟨other, clean⟩ := not_or.mp (mt List.mem_cons.mpr clean)
      rw [lines, if_neg (Ne.symm other)]
      cases line with
      | nil => rfl
      | cons b line => rw [ih clean (List.cons_ne_nil b line)]

@[elab_as_elim]
theorem induction_lines (separator : α) {motive : List α → Prop} (unfinished : ∀ line, separator ∉ line → motive line)
    (ended : ∀ line rest, separator ∉ line → motive rest → motive (line ++ separator :: rest)) (text : List α) :
    motive text := by
  induction length : text.length using Nat.strongRecOn generalizing text with
  | ind size ih =>
      by_cases found : separator ∈ text
      · obtain ⟨line, rest, rfl, clean⟩ := List.eq_append_cons_of_mem found
        apply ended line rest clean
        apply ih rest.length _ rest rfl
        rw [← length, List.length_append, List.length_cons]
        omega
      · exact unfinished text found

theorem notMem_of_mem_lines (member : line ∈ lines separator text) : separator ∉ line := by
  induction text using induction_lines separator with
  | unfinished last clean =>
      cases last with
      | nil => cases member
      | cons a last =>
          rw [lines_unfinished clean (List.cons_ne_nil a last)] at member
          exact List.mem_singleton.mp member ▸ clean
  | ended first rest clean ih =>
      rw [lines_line clean] at member
      rcases List.mem_cons.mp member with rfl | later
      · exact clean
      · exact ih later

omit [DecidableEq α] in
theorem Terminated.nil_of_notMem (terminated : Terminated separator line) (clean : separator ∉ line) : line = [] := by
  rcases terminated with empty | last
  · exact empty
  · exact absurd (List.mem_of_getLast? last) clean

omit [DecidableEq α] in
theorem Terminated.rest (terminated : Terminated separator (line ++ separator :: text)) :
    Terminated separator text := by
  cases text with
  | nil => exact Or.inl rfl
  | cons a text =>
      apply Or.inr
      simpa [Terminated, List.getLast?_append, List.getLast?_cons_cons] using terminated

theorem lines_append (terminated : Terminated separator front) (text : List α) :
    lines separator (front ++ text) = lines separator front ++ lines separator text := by
  induction front using induction_lines separator with
  | unfinished last clean =>
      rw [terminated.nil_of_notMem clean]
      rfl
  | ended first rest clean ih =>
      rw [List.append_assoc, List.cons_append, lines_line clean, lines_line clean, ih terminated.rest, List.cons_append]

omit [DecidableEq α] in
theorem exists_unfinished (separator : α) (text : List α) :
    ∃ front last, text = front ++ last ∧ Terminated separator front ∧ separator ∉ last := by
  classical
  induction text using induction_lines separator with
  | unfinished last clean => exact ⟨[], last, rfl, Or.inl rfl, clean⟩
  | ended first rest _ ih =>
      obtain ⟨front, last, rfl, terminated, clean⟩ := ih
      refine ⟨first ++ [separator] ++ front, last, ?_, (terminated_ended first).append terminated, clean⟩
      rw [List.append_assoc, List.append_assoc, List.singleton_append]

def join (separator : α) (pieces : List (List α)) : List α := pieces.flatMap fun piece => piece ++ [separator]

omit [DecidableEq α] in
theorem terminated_join (pieces : List (List α)) : Terminated separator (join separator pieces) := by
  induction pieces with
  | nil => exact Or.inl rfl
  | cons piece pieces ih => exact (terminated_ended piece).append ih

theorem lines_join {pieces : List (List α)} (clean : ∀ piece ∈ pieces, separator ∉ piece) :
    lines separator (join separator pieces) = pieces := by
  induction pieces with
  | nil => rfl
  | cons piece pieces ih =>
      rw [join, List.flatMap_cons, List.append_assoc, List.singleton_append,
        lines_line (clean piece List.mem_cons_self)]
      exact congrArg (piece :: ·) (ih fun other member => clean other (List.mem_cons_of_mem piece member))

end KnowledgeAcquisition.Library.Lines
