import KnowledgeAcquisition.EnglishApps.EnglishChallenge
import KnowledgeAcquisition.Library.Lines

/-!
# The review queue and its file

What is read back from a review file after it is rewritten or appended to, and when the file and the queue in memory
stay the same over a whole challenge.
-/

namespace KnowledgeAcquisition.Proof.EnglishApps
open KnowledgeAcquisition.EnglishApps Library Library.Lines

section Getline

variable {delim : UInt8} {line rest : Text}

theorem getline_line (clean : delim ∉ line) :
    Stream.getline { unread := line ++ delim :: rest, good := true } delim =
      some (line, { unread := rest, good := true }) := by
  have other : ∀ a ∈ line, decide (a ≠ delim) = true := fun a member =>
    decide_eq_true (ne_of_mem_of_not_mem member clean)
  have taken : (line ++ delim :: rest).takeWhile (· ≠ delim) = line := by
    rw [List.takeWhile_append_of_pos other, List.takeWhile_cons_of_neg (by simp), List.append_nil]
  have dropped : (line ++ delim :: rest).drop (line.length + 1) = rest := List.drop_length_add_append 1
  have found : delim ∈ line ++ delim :: rest := List.mem_append_right line List.mem_cons_self
  simp only [Stream.getline, found, if_true, taken, dropped]

theorem getline_unfinished (clean : delim ∉ line) (started : line ≠ []) :
    Stream.getline { unread := line, good := true } delim = some (line, { unread := [], good := false }) := by
  simp only [Stream.getline, clean, started, if_true, if_false]

theorem getline_cases {stream next : Stream} (read : stream.getline delim = some (line, next)) :
    delim ∉ line ∧ (stream.unread = line ++ delim :: next.unread ∧ next.good ∨
      stream.unread = line ∧ line ≠ [] ∧ next = { unread := [], good := false }) := by
  obtain ⟨unread, good⟩ := stream
  cases good with
  | false => cases read
  | true =>
      induction unread using induction_lines delim with
      | unfinished last clean =>
          cases last with
          | nil => cases read
          | cons a last =>
              cases (getline_unfinished clean (List.cons_ne_nil a last)).symm.trans read
              exact ⟨clean, Or.inr ⟨rfl, List.cons_ne_nil a last, rfl⟩⟩
      | ended first rest clean =>
          cases (getline_line clean).symm.trans read
          exact ⟨clean, Or.inl ⟨rfl, rfl⟩⟩

end Getline

def fields (w : Word) : Text := w.word ++ tab :: (w.ipa ++ tab :: w.description)

theorem line_eq (w : Word) : w.line = fields w ++ [newline] := by
  simp [Word.line, fields]

structure Loadable (w : Word) : Prop where
  word : tab ∉ w.word
  ipa : tab ∉ w.ipa
  description : w.description ≠ []
  line : newline ∉ fields w

theorem readWord_fields {w : Word} (loadable : Loadable w) : readWord (fields w) = some w := by
  have clean : newline ∉ w.description := by
    intro member
    have afterTab : newline ∈ w.ipa ++ tab :: w.description :=
      List.mem_append_right _ (List.mem_cons_of_mem _ member)
    exact loadable.line (List.mem_append_right _ (List.mem_cons_of_mem _ afterTab))
  simp only [readWord, fields, Option.bind_eq_bind, getline_line loadable.word, Option.bind_some,
    getline_line loadable.ipa, getline_unfinished clean loadable.description]

theorem readWord_some {line : Text} (clean : newline ∉ line) {w : Word} (read : readWord line = some w) :
    line = fields w ∧ Loadable w := by
  simp only [readWord, Option.bind_eq_bind, Option.bind_eq_some_iff, Prod.exists, Option.some.injEq] at read
  obtain ⟨word, afterWord, readWord, ipa, afterIpa, readIpa, description, afterAll, readDescription, rfl⟩ := read
  obtain ⟨noTab, split⟩ := getline_cases readWord
  obtain ⟨noTab', split'⟩ := getline_cases readIpa
  obtain ⟨-, split''⟩ := getline_cases readDescription
  -- Each of the first two must have met its tab, or the next one would have failed.
  rcases split with ⟨atWord, -⟩ | ⟨-, -, rfl⟩
  · rcases split' with ⟨atIpa, -⟩ | ⟨-, -, rfl⟩
    · have whole : line = word ++ tab :: (ipa ++ tab :: afterIpa.unread) := by rw [← atIpa, ← atWord]
      rcases split'' with ⟨ended, -⟩ | ⟨atDescription, started, -⟩
      · rw [whole, ended] at clean
        simp at clean
      · rw [atDescription] at whole
        subst whole
        exact ⟨rfl, noTab, noTab', started, clean⟩
    · cases readDescription
  · cases readIpa

theorem readWords_eq (content : Text) (words : List Word) :
    readWords { unread := content, good := true } words = words ++ (lines newline content).filterMap readWord := by
  induction content using induction_lines newline generalizing words with
  | unfinished last clean =>
      cases last with
      | nil =>
          rw [readWords]
          exact (List.append_nil words).symm
      | cons a last =>
          have ended (words : List Word) : readWords { unread := [], good := false } words = words := by
            rw [readWords]
            rfl
          rw [readWords, getline_unfinished clean (List.cons_ne_nil a last),
            lines_unfinished clean (List.cons_ne_nil a last)]
          simp only [List.cons_ne_nil, if_false, ended]
          cases here : readWord (a :: last) with
          | none => simp [here]
          | some w => simp [here]
  | ended line rest clean ih =>
      rw [readWords, getline_line clean, lines_line clean]
      simp only [ih]
      by_cases empty : line = []
      · subst empty
        rfl
      · rw [if_neg empty]
        cases here : readWord line with
        | none => simp [here]
        | some w => simp [here]

theorem loadWords_eq (content : Text) : loadWords content = (lines newline content).filterMap readWord :=
  readWords_eq content []

theorem loadWords_loadable {content : Text} {w : Word} (loaded : w ∈ loadWords content) : Loadable w := by
  rw [loadWords_eq] at loaded
  obtain ⟨line, member, read⟩ := List.mem_filterMap.mp loaded
  exact (readWord_some (notMem_of_mem_lines member) read).2

theorem loadWords_append {content : Text} (terminated : Terminated newline content) (more : Text) :
    loadWords (content ++ more) = loadWords content ++ loadWords more := by
  rw [loadWords_eq, loadWords_eq, loadWords_eq, lines_append terminated, List.filterMap_append]

theorem refreshReviewQueue_eq (words : List Word) : refreshReviewQueue words = join newline (words.map fields) := by
  rw [refreshReviewQueue, join, List.flatMap_map]
  exact congrArg (words.flatMap ·) (funext line_eq)

theorem loadWords_refreshReviewQueue {words : List Word} (loadable : ∀ w ∈ words, Loadable w) :
    loadWords (refreshReviewQueue words) = words := by
  have clean : ∀ piece ∈ words.map fields, newline ∉ piece := by
    intro piece printed
    obtain ⟨w, member, rfl⟩ := List.mem_map.mp printed
    exact (loadable w member).line
  have read : ∀ w ∈ words, (readWord ∘ fields) w = some w := fun w member => readWord_fields (loadable w member)
  rw [loadWords_eq, refreshReviewQueue_eq, lines_join clean, List.filterMap_map, List.filterMap_congr read,
    List.filterMap_some]

theorem loadWords_ended {line : Text} (clean : newline ∉ line) :
    loadWords (line ++ [newline]) = (readWord line).toList := by
  rw [loadWords_eq, lines_line clean]
  cases read : readWord line with
  | none => exact List.filterMap_cons_none read
  | some w => exact List.filterMap_cons_some read

theorem loadWords_line {w : Word} (loadable : Loadable w) : loadWords w.line = [w] := by
  rw [line_eq, loadWords_ended loadable.line, readWord_fields loadable]
  rfl

/-- A word behind an unfinished line is lost: it is read as a part of that line. -/
theorem loadWords_append_line_iff {w : Word} (loadable : Loadable w) (content : Text) :
    loadWords (content ++ w.line) = loadWords content ++ [w] ↔ Terminated newline content := by
  constructor
  · intro appended
    obtain ⟨front, last, rfl, terminated, clean⟩ := exists_unfinished newline content
    have joined : newline ∉ last ++ fields w := fun member =>
      (List.mem_append.mp member).elim clean loadable.line
    rw [List.append_assoc, loadWords_append terminated, loadWords_append terminated, List.append_assoc,
      List.append_cancel_left_eq, line_eq, ← List.append_assoc, loadWords_ended joined] at appended
    have read : readWord (last ++ fields w) = some w := by
      have final := congrArg List.getLast? appended
      rw [List.getLast?_concat] at final
      cases read : readWord (last ++ fields w) with
      | none =>
          rw [read] at final
          cases final
      | some other =>
          rw [read] at final
          exact final
    have nothing : last = [] := List.append_left_eq_self.mp (readWord_some joined read).1
    rwa [nothing, List.append_nil]
  · intro terminated
    rw [loadWords_append terminated, loadWords_line loadable]

structure Answered (before : Session) (question : Word) (attempt : Attempt) (after : Session) : Prop where
  agrees : loadWords after.reviewFile = after.reviewQueue
  added : ¬attempt.IsCorrect question → question.word ∉ before.reviewQueue.map Word.word →
    after.reviewQueue = before.reviewQueue ++ [question] ∧
      loadWords after.reviewFile = loadWords before.reviewFile ++ [question]
  kept : ¬attempt.IsCorrect question → question.word ∈ before.reviewQueue.map Word.word →
    after.reviewQueue = before.reviewQueue ∧ after.reviewFile = before.reviewFile
  removed : attempt.IsCorrect question →
    after.reviewQueue = before.reviewQueue.filter (·.word ≠ question.word) ∧
      loadWords after.reviewFile = (loadWords before.reviewFile).filter (·.word ≠ question.word)

section Answer

variable {session : Session} {question : Word} {attempt : Attempt}
  (agrees : loadWords session.reviewFile = session.reviewQueue)

include agrees

theorem answered_right (right : attempt.IsCorrect question) :
    Answered session question attempt (session.answer question attempt) ∧
      Terminated newline (session.answer question attempt).reviewFile := by
  have loaded : ∀ w ∈ session.reviewQueue.filter (·.word ≠ question.word), Loadable w := by
    intro w member
    rw [← agrees] at member
    exact loadWords_loadable (List.mem_of_mem_filter member)
  have after : session.answer question attempt =
      { reviewFile := refreshReviewQueue (session.reviewQueue.filter (·.word ≠ question.word))
        reviewQueue := session.reviewQueue.filter (·.word ≠ question.word) } := if_pos right
  have reread := loadWords_refreshReviewQueue loaded
  rw [after]
  refine ⟨⟨reread, absurd right, absurd right, fun _ => ⟨rfl, ?_⟩⟩, ?_⟩
  · rw [reread, agrees]
  · rw [refreshReviewQueue_eq]
    exact terminated_join _

theorem answer_present (wrong : ¬attempt.IsCorrect question)
    (present : question.word ∈ session.reviewQueue.map Word.word) : session.answer question attempt = session := by
  have found : (loadWords session.reviewFile).any (fun item => item.word = question.word) = true := by
    obtain ⟨item, member, same⟩ := List.mem_map.mp present
    exact List.any_eq_true.mpr ⟨item, agrees ▸ member, decide_eq_true same⟩
  rw [Session.answer, if_neg wrong, saveToReviewQueue, if_pos found]

theorem answer_absent (wrong : ¬attempt.IsCorrect question)
    (absent : question.word ∉ session.reviewQueue.map Word.word) :
    session.answer question attempt =
      { reviewFile := session.reviewFile ++ question.line, reviewQueue := session.reviewQueue ++ [question] } := by
  have missing : ¬(loadWords session.reviewFile).any (fun item => item.word = question.word) = true := by
    intro found
    obtain ⟨item, member, same⟩ := List.any_eq_true.mp found
    exact absent (List.mem_map.mpr ⟨item, agrees ▸ member, of_decide_eq_true same⟩)
  rw [Session.answer, if_neg wrong, saveToReviewQueue, if_neg missing]

theorem answered_present (wrong : ¬attempt.IsCorrect question)
    (present : question.word ∈ session.reviewQueue.map Word.word) :
    Answered session question attempt session where
  agrees := agrees
  added _ absent := absurd present absent
  kept _ _ := ⟨rfl, rfl⟩
  removed right := absurd right wrong

theorem answered_absent_iff (loadable : Loadable question) (wrong : ¬attempt.IsCorrect question)
    (absent : question.word ∉ session.reviewQueue.map Word.word) :
    Answered session question attempt (session.answer question attempt) ↔
      Terminated newline session.reviewFile := by
  rw [answer_absent agrees wrong absent, ← loadWords_append_line_iff loadable]
  constructor
  · intro answered
    exact (answered.added wrong absent).2
  · intro appended
    refine ⟨?_, fun _ _ => ⟨rfl, appended⟩, fun _ present => absurd present absent, fun right => absurd right wrong⟩
    rw [appended, agrees]

end Answer

/-! ## A whole challenge -/

def InStep (session : Session) (rounds : List (Word × Attempt)) : Prop :=
  ∀ past question attempt rest, rounds = past ++ (question, attempt) :: rest →
    Answered (session.run past) question attempt (session.run (past ++ [(question, attempt)]))

theorem inStep_cons (session : Session) (question : Word) (attempt : Attempt) (rounds : List (Word × Attempt)) :
    InStep session ((question, attempt) :: rounds) ↔
      Answered session question attempt (session.answer question attempt) ∧
        InStep (session.answer question attempt) rounds := by
  constructor
  · intro inStep
    refine ⟨inStep [] question attempt rounds rfl, fun past later attempt' rest split => ?_⟩
    exact inStep ((question, attempt) :: past) later attempt' rest (congrArg _ split)
  · rintro ⟨first, later⟩ past other attempt' rest split
    cases past with
    | nil =>
        cases split
        exact first
    | cons round past =>
        cases split
        exact later past other attempt' rest rfl

theorem inStep_iff {session : Session} (agrees : loadWords session.reviewFile = session.reviewQueue)
    {rounds : List (Word × Attempt)} (loadable : ∀ round ∈ rounds, Loadable round.1) :
    InStep session rounds ↔ Terminated newline session.reviewFile ∨
      ∀ round ∈ rounds.takeWhile (fun round => ¬round.2.IsCorrect round.1),
        round.1.word ∈ session.reviewQueue.map Word.word := by
  induction rounds generalizing session with
  | nil =>
      constructor
      · intro _
        exact Or.inr fun round member => nomatch member
      · rintro - (_ | _) _ _ _ ⟨⟩
  | cons round rounds ih =>
      obtain ⟨question, attempt⟩ := round
      have later : ∀ round ∈ rounds, Loadable round.1 := fun round member =>
        loadable round (List.mem_cons_of_mem _ member)
      rw [inStep_cons]
      by_cases right : attempt.IsCorrect question
      · obtain ⟨answered, terminated⟩ := answered_right agrees right
        rw [List.takeWhile_cons_of_neg (by simpa using right), ih answered.agrees later]
        simp [answered, terminated]
      rw [List.takeWhile_cons_of_pos (by simpa using right)]
      by_cases present : question.word ∈ session.reviewQueue.map Word.word
      · rw [answer_present agrees right present, ih agrees later, List.forall_mem_cons]
        simp only [answered_present agrees right present, present, true_and]
      · rw [answered_absent_iff agrees (loadable _ List.mem_cons_self) right present]
        constructor
        · exact fun inStep => Or.inl inStep.1
        · rintro (terminated | wrongs)
          · have answered := (answered_absent_iff agrees (loadable _ List.mem_cons_self) right present).mpr terminated
            refine ⟨terminated, (ih answered.agrees later).mpr (Or.inl ?_)⟩
            rw [answer_absent agrees right present, line_eq]
            exact terminated.append (terminated_ended _)
          · exact absurd (wrongs _ List.mem_cons_self) present

theorem mem_fillExam {targetSize : Nat} {examList mainList : List Word} {w : Word}
    (member : w ∈ fillExam targetSize examList mainList) : w ∈ examList ∨ w ∈ mainList := by
  induction mainList generalizing examList with
  | nil => exact Or.inl member
  | cons first mainList ih =>
      rw [fillExam] at member
      split at member
      · exact Or.inl member
      · split at member
        · exact (ih member).imp_right (List.mem_cons_of_mem first)
        · rcases ih member with filled | later
          · rcases List.mem_append.mp filled with old | new
            · exact Or.inl old
            · exact Or.inr (List.mem_singleton.mp new ▸ List.mem_cons_self)
          · exact Or.inr (List.mem_cons_of_mem first later)

section Exam

variable {reviewFile wordFile : Text} {mainList examList : List Word} {targetSize : Nat}

theorem exam_loadable (shuffled : mainList.Perm (loadWords wordFile))
    (mixed : examList.Perm (fillExam targetSize (loadWords reviewFile) mainList)) (attempts : List Attempt) :
    ∀ round ∈ examList.zip attempts, Loadable round.1 := by
  intro round member
  have asked : round.1 ∈ examList := (List.of_mem_zip member).1
  rcases mem_fillExam (mixed.mem_iff.mp asked) with queued | new
  · exact loadWords_loadable queued
  · exact loadWords_loadable (shuffled.mem_iff.mp new)

theorem challenge_inStep_iff (attempts : List Attempt) (shuffled : mainList.Perm (loadWords wordFile))
    (mixed : examList.Perm (fillExam targetSize (loadWords reviewFile) mainList)) :
    InStep (Session.start reviewFile) (examList.zip attempts) ↔
      Terminated newline reviewFile ∨
        ∀ round ∈ (examList.zip attempts).takeWhile (fun round => ¬round.2.IsCorrect round.1),
          round.1.word ∈ (loadWords reviewFile).map Word.word := by
  have agrees : loadWords (Session.start reviewFile).reviewFile = (Session.start reviewFile).reviewQueue := rfl
  exact inStep_iff agrees (exam_loadable shuffled mixed attempts)

end Exam

/-! An exam of two words: `b` is answered wrong and `a`, which is in the review queue, is answered right. -/

def entry (letter : UInt8) : Word where
  word := [letter]
  ipa := [letter]
  description := [letter]

def mainWords : List Word := [98, 99, 100, 101, 102, 103, 104].map entry

def wrongThenRight : List Attempt :=
  [{ options := #v[[98], [99], [100], [101], [102]], choice := 2 },
    { options := #v[[97], [99], [100], [101], [102]], choice := 1 }]

theorem entry_loadable {letter : UInt8} (noTab : tab ≠ letter) (noNewline : newline ≠ letter) :
    Loadable (entry letter) := by
  refine ⟨?_, ?_, List.cons_ne_nil letter [], ?_⟩
  · simpa [entry] using noTab
  · simpa [entry] using noTab
  · simpa [fields, entry, tab, newline] using noNewline

theorem mainWords_perm : mainWords.Perm (loadWords (refreshReviewQueue mainWords)) := by
  have loadable : ∀ w ∈ mainWords, Loadable w := by
    simp only [mainWords, List.forall_mem_map, List.forall_mem_cons, List.not_mem_nil, false_implies, implies_true,
      and_true]
    refine ⟨?_, ?_, ?_, ?_, ?_, ?_, ?_⟩
    all_goals exact entry_loadable (by decide) (by decide)
  rw [loadWords_refreshReviewQueue loadable]

theorem challenge_inStep :
    InStep (Session.start (entry 97).line) ([entry 98, entry 97].zip wrongThenRight) := by
  have queued : loadWords (entry 97).line = [entry 97] := by
    rw [loadWords_eq]
    rfl
  have mixed : [entry 98, entry 97].Perm (fillExam 2 (loadWords (entry 97).line) mainWords) := by
    rw [queued]
    decide
  exact (challenge_inStep_iff wrongThenRight mainWords_perm mixed).mpr (Or.inl (by decide))

/-- The review file has a word without a newline at its end. -/
theorem challenge_drifts :
    ¬∀ (reviewFile wordFile : Text) (mainList examList : List Word) (targetSize : Nat) (attempts : List Attempt),
      mainList.Perm (loadWords wordFile) → examList.Perm (fillExam targetSize (loadWords reviewFile) mainList) →
      InStep (Session.start reviewFile) (examList.zip attempts) := by
  intro claim
  have queued : loadWords (fields (entry 97)) = [entry 97] := by
    rw [loadWords_eq]
    rfl
  have mixed : [entry 98, entry 97].Perm (fillExam 2 (loadWords (fields (entry 97))) mainWords) := by
    rw [queued]
    decide
  have inStep := claim _ _ _ _ 2 wrongThenRight mainWords_perm mixed
  rcases (inStep_iff rfl (exam_loadable mainWords_perm mixed wrongThenRight)).mp inStep with ended | present
  · exact absurd ended (by decide)
  · rw [Session.start, queued] at present
    exact absurd present (by decide)

end KnowledgeAcquisition.Proof.EnglishApps
