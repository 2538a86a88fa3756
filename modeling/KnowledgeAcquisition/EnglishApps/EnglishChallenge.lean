/-!
# The vocabulary challenge

The word lists and the review queue of `linux/ubuntu/application/english_apps/english_challenge.cpp`, and its mode
`test`. A `std::string` is the list of its bytes, and every file can be opened.
-/

namespace KnowledgeAcquisition.EnglishApps

abbrev Text := List UInt8

def tab : UInt8 := 9

def newline : UInt8 := 10

structure Word where
  word : Text
  ipa : Text
  description : Text
  deriving DecidableEq, Repr

/-- An input stream by the bytes that are not read yet. It is not `good()` once it has met its end. -/
structure Stream where
  unread : Text
  good : Bool

/-- `std::getline`, `none` where it fails: on a stream that is not good, or if there is nothing to extract. -/
def Stream.getline (stream : Stream) (delim : UInt8) : Option (Text × Stream) :=
  if stream.good then
    if delim ∈ stream.unread then
      let line := stream.unread.takeWhile (· ≠ delim)
      some (line, { unread := stream.unread.drop (line.length + 1), good := true })
    else if stream.unread = [] then none
    else some (stream.unread, { unread := [], good := false })
  else none

theorem Stream.getline_shorter {stream next : Stream} {delim : UInt8} {line : Text}
    (read : stream.getline delim = some (line, next)) : next.unread.length < stream.unread.length := by
  rw [getline] at read
  split at read
  · split at read
    · next _ found =>
        cases read
        have started := List.length_pos_of_mem found
        rw [List.length_drop]
        omega
    · split at read
      · cases read
      · next started =>
          cases read
          exact List.length_pos_iff.mpr started
  · cases read

def readWord (line : Text) : Option Word := do
  let ss : Stream := { unread := line, good := true }
  let (word, ss) ← ss.getline tab
  let (ipa, ss) ← ss.getline tab
  let (description, _) ← ss.getline newline
  some { word, ipa, description }

def readWords (file : Stream) (words : List Word) : List Word :=
  match _ : file.getline newline with
  | none => words
  | some (line, rest) =>
      if line = [] then readWords rest words
      else
        match readWord line with
        | some w => readWords rest (words ++ [w])
        | none => readWords rest words
  termination_by file.unread.length
  decreasing_by all_goals exact Stream.getline_shorter ‹_›

def loadWords (content : Text) : List Word := readWords { unread := content, good := true } []

def Word.line (w : Word) : Text := w.word ++ [tab] ++ w.ipa ++ [tab] ++ w.description ++ [newline]

def saveToReviewQueue (queue : List Word) (w : Word) (reviewFile : Text) : List Word × Text :=
  if (loadWords reviewFile).any (fun item => item.word = w.word) then (queue, reviewFile)
  else (queue ++ [w], reviewFile ++ w.line)

def refreshReviewQueue (remainingQueue : List Word) : Text := remainingQueue.flatMap Word.line

def fillExam (targetSize : Nat) (examList : List Word) : List Word → List Word
  | [] => examList
  | w :: mainList =>
      if examList.length ≥ targetSize then examList
      else if examList.any (fun q => q.word = w.word) then fillExam targetSize examList mainList
      else fillExam targetSize (examList ++ [w]) mainList

structure Attempt where
  options : Vector Text 5
  choice : Int

def Attempt.IsCorrect (attempt : Attempt) (currentQuestion : Word) : Prop :=
  attempt.choice ≥ 1 ∧ attempt.choice ≤ 5 ∧
    attempt.options[(attempt.choice - 1).toNat]? = some currentQuestion.word

instance (attempt : Attempt) (currentQuestion : Word) : Decidable (attempt.IsCorrect currentQuestion) :=
  inferInstanceAs (Decidable (_ ∧ _ ∧ _))

structure Session where
  reviewFile : Text
  reviewQueue : List Word

namespace Session

def start (reviewFile : Text) : Session := { reviewFile, reviewQueue := loadWords reviewFile }

def answer (session : Session) (currentQuestion : Word) (attempt : Attempt) : Session :=
  if attempt.IsCorrect currentQuestion then
    let remaining := session.reviewQueue.filter fun w => w.word ≠ currentQuestion.word
    { reviewFile := refreshReviewQueue remaining, reviewQueue := remaining }
  else
    let (reviewQueue, reviewFile) := saveToReviewQueue session.reviewQueue currentQuestion session.reviewFile
    { reviewFile, reviewQueue }

def run (session : Session) (rounds : List (Word × Attempt)) : Session :=
  rounds.foldl (fun session round => session.answer round.1 round.2) session

end Session

end KnowledgeAcquisition.EnglishApps
