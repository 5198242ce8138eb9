import Appraisal.Archive.Progress
import Appraisal.Instant

/-!
# The archive

Three tables: users, their analyses and their progress. A table is the list of its rows in the
order in which they were added. Every statement either fails or gives its result and the archive
after it; a statement that fails changes nothing.
-/

namespace Appraisal

structure User where
  id : String
  email : String
  name : Option String
deriving DecidableEq, Repr

/-- An analysis as it is stored, its report in JSON. -/
structure AnalysisRow where
  id : String
  userId : String
  title : String
  code : String
  language : String
  targetCompany : String
  overallScore : Int32
  timeComplexity : String
  spaceComplexity : String
  report : String
  fileUrl : Option String
  createdAt : Instant
deriving DecidableEq, Repr

/-- The progress of a user as it is stored. -/
structure ProgressRow where
  id : String
  userId : String
  totals : Totals
deriving DecidableEq, Repr

structure Archive where
  users : List User
  analyses : List AnalysisRow
  progress : List ProgressRow
deriving DecidableEq

/-- Why a statement failed. -/
inductive ArchiveError where
  | recordNotFound
  | rollbackRequested
  | brokenTransactions
  | transactionOpen
  | noTransaction
  | refused
deriving DecidableEq, Repr

def ArchiveError.text (error : ArchiveError) : String :=
  "database error: " ++ match error with
    | .recordNotFound => "Record not found"
    | .rollbackRequested => "You have asked diesel to rollback the transaction"
    | .brokenTransactions => "The transaction manager is broken"
    | .transactionOpen => "Cannot perform this operation while a transaction is open"
    | .noTransaction => "Cannot perform this operation outside of a transaction"
    | .refused => "The statement was refused"

namespace Archive

def empty : Archive := ⟨[], [], []⟩

/-- Whether the archive can hold the texts: none has the character with the number zero. -/
def holdsTexts (texts : List String) : Bool :=
  texts.all fun text => text.toList.all fun c => c != '\x00'

/-- Whether the archive can hold the instant, which lies between the years -4713 and 294276. -/
def holdsInstant (t : Instant) : Bool :=
  -211813488000000000 ≤ t.microseconds && t.microseconds < 9223371331200000000

def hasUser (archive : Archive) (id : String) : Bool := archive.users.any fun user => user.id == id

def hasAnalysis (archive : Archive) (id : String) : Bool :=
  archive.analyses.any fun row => row.id == id

/-- The name of a user of whom nothing is known. -/
def unknownName : String := "User"

/-- The address of a user of whom nothing is known. -/
def unknownEmail (userId : String) : String := userId ++ "@users.codemeter.invalid"

/-- Adds a user of whom nothing is known, unless the user is there. -/
def addUser (archive : Archive) (userId : String) : Except ArchiveError Archive :=
  if !holdsTexts [userId] then .error .refused
  else if archive.hasUser userId then .ok archive
  else .ok { archive with
    users := archive.users ++ [⟨userId, unknownEmail userId, some unknownName⟩] }

def rowTexts (row : AnalysisRow) : List String :=
  [row.id, row.userId, row.title, row.code, row.language, row.targetCompany, row.timeComplexity,
    row.spaceComplexity, row.report] ++ row.fileUrl.toList

/-- Whether the row may be added: the archive can hold it, its id is new, its user is there, and its
score lies between 0 and 100. -/
def accepts (archive : Archive) (row : AnalysisRow) : Bool :=
  holdsTexts (rowTexts row) && holdsInstant row.createdAt && !archive.hasAnalysis row.id &&
    archive.hasUser row.userId && decide (0 ≤ row.overallScore.toInt) &&
    decide (row.overallScore.toInt ≤ 100)

/-- The row as the archive keeps it: times have no more than microseconds. -/
def kept (row : AnalysisRow) : AnalysisRow :=
  { row with createdAt := .ofMicroseconds row.createdAt.microseconds }

@[simp] theorem kept_kept (row : AnalysisRow) : kept (kept row) = kept row := by
  simp [kept, Instant.microseconds_ofMicroseconds]

def insertAnalysis (archive : Archive) (row : AnalysisRow) : Except ArchiveError Archive :=
  if archive.accepts row then .ok { archive with analyses := archive.analyses ++ [kept row] }
  else .error .refused

def analysis? (archive : Archive) (id : String) : Except ArchiveError (Option AnalysisRow) :=
  if holdsTexts [id] then .ok (archive.analyses.find? fun row => row.id == id) else .error .refused

/-- Whether a row is at least as new as another. -/
def newer (r s : AnalysisRow) : Bool := s.createdAt.le r.createdAt

/-- The newest analyses of a user, up to a number of them. -/
def analysesOf (archive : Archive) (userId : String) (limit : Nat) :
    Except ArchiveError (List AnalysisRow) :=
  if holdsTexts [userId] then
    .ok (((archive.analyses.filter fun row => row.userId == userId).mergeSort newer).take limit)
  else .error .refused

/-- Whether a row has a better score than another, or the same one and is at least as new. -/
def better (r s : AnalysisRow) : Bool :=
  s.overallScore < r.overallScore || (s.overallScore == r.overallScore && newer r s)

def user? (archive : Archive) (id : String) : Option User :=
  archive.users.find? fun user => user.id == id

/-- A row with its author, if the author is there. -/
def withAuthor? (archive : Archive) (row : AnalysisRow) : Option (AnalysisRow × Option String) :=
  (archive.user? row.userId).map fun user => (row, user.name)

/-- The best analyses with the names of their authors, up to a number of them. -/
def bestAnalyses (archive : Archive) (limit : Nat) : List (AnalysisRow × Option String) :=
  ((archive.analyses.mergeSort better).filterMap archive.withAuthor?).take limit

def progress? (archive : Archive) (userId : String) : Except ArchiveError (Option ProgressRow) :=
  if holdsTexts [userId] then .ok (archive.progress.find? fun row => row.userId == userId)
  else .error .refused

/-- Replaces the totals of the row with this user, or adds the row. -/
def upsertProgress (row : ProgressRow) : List ProgressRow → List ProgressRow
  | [] => [row]
  | other :: rows =>
    if other.userId = row.userId then { other with totals := row.totals } :: rows
    else other :: upsertProgress row rows

theorem find?_upsertProgress_of_ne {row : ProgressRow} {userId : String}
    (h : userId ≠ row.userId) : ∀ rows,
    (upsertProgress row rows).find? (fun r => r.userId == userId) =
      rows.find? fun r => r.userId == userId
  | [] => by simp [upsertProgress, Ne.symm h]
  | other :: rows => by
    rw [upsertProgress]
    split
    · next he => simp [he, Ne.symm h]
    · simp [List.find?_cons, find?_upsertProgress_of_ne h rows]

/-- What was written last is what is found. -/
theorem totals_find?_upsertProgress (row : ProgressRow) : ∀ rows,
    ((upsertProgress row rows).find? fun r => r.userId == row.userId).map (·.totals) =
      some row.totals
  | [] => by simp [upsertProgress]
  | other :: rows => by
    rw [upsertProgress]
    split
    · next h => simp [h]
    · next h => simp [h, totals_find?_upsertProgress row rows]

def totalsTexts (totals : Totals) : List String := totals.language.toList ++ totals.companies

/-- Whether the progress of a user can be written under an id: the row of the user keeps the id that
it has, and another row needs one that is new. -/
def hasRoomFor (archive : Archive) (row : ProgressRow) : Bool :=
  (archive.progress.any fun other => other.userId == row.userId) ||
    !archive.progress.any fun other => other.id == row.id

/-- Writes the progress of a user: the archive after it. -/
def writeProgress (archive : Archive) (row : ProgressRow) : Except ArchiveError Archive :=
  if holdsTexts ([row.id, row.userId] ++ totalsTexts row.totals) && archive.hasUser row.userId &&
      archive.hasRoomFor row then
    .ok { archive with progress := upsertProgress row archive.progress }
  else .error .refused

end Archive

end Appraisal
