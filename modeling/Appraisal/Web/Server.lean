import Appraisal.Consultation
import Appraisal.Posting
import Appraisal.Record
import Appraisal.Web.Outline
import Appraisal.Web.Route

/-!
# The server

How requests are answered. A submission is assessed, stored and counted in the progress of its
user; the other routes read what is stored. A database that cannot be reached, or a statement that
fails, makes the answer an error; only a statement that fails to count the progress is passed over.
A count that overflows in a debug build ends the request, whose analysis is stored by then.
-/

namespace Appraisal.Web

structure Response where
  status : Nat
  body : Option Json

/-- An answer, the database after it, and what was asked of a language model on the way. -/
structure Handled where
  response : Response
  database : Option Database
  asked : List (List Message) := []

/-- Why an answer is an error. -/
inductive Problem where
  | missingFields
  | missingUser
  | notFound
  | saveFailed
  | lookupFailed
  | listFailed
  | leaderboardFailed
deriving DecidableEq, Repr

namespace Problem

def status : Problem → Nat
  | .missingFields | .missingUser => 400
  | .notFound => 404
  | _ => 500

def message : Problem → String
  | .missingFields => "Missing required fields"
  | .missingUser => "User ID is required"
  | .notFound => "Analysis not found"
  | .saveFailed => "Failed to save analysis"
  | .lookupFailed => "Failed to fetch analysis"
  | .listFailed => "Failed to fetch analyses"
  | .leaderboardFailed => "Failed to fetch leaderboard"

def response (problem : Problem) : Response where
  status := problem.status
  body := some (.object [
    Json.field "success" (.bool false), Json.field "error" (.text problem.message)])

end Problem

/-- The answer to a request that no handler sees. -/
def rejected (status : Nat) : Response := ⟨status, none⟩

/-- A successful answer with these fields. -/
def success (fields : List (Option String × Json)) : Response where
  status := 200
  body := some (.object (Json.field "success" (.bool true) :: fields))

def probe (now : Instant) (hasModel reachable : Bool) : Response := success [
  Json.field "message" (.text "CodeMeter analysis API is running"),
  Json.field "timestamp" (.text now.text),
  Json.field "features" (.object [
    Json.field "groqAi" (.bool hasModel), Json.field "database" (.bool reachable)])]

/-- The answer to a submission that was stored. -/
def saved (record : Record) (source : Source) : Response := success [
  Json.field "analysis" record.toJson, Json.field "source" (.grade source)]

/-- What is stored of a submission and its report. -/
def freshAnalysis (submission : Submission) (report : Report) : FreshAnalysis where
  userId := submission.userId
  title := submission.title
  code := submission.code
  language := submission.language.tag
  targetCompany := submission.targetCompany
  report := report

/-- The answer to a submission whose row was stored. -/
def recorded (row : AnalysisRow) (source : Source) : Response :=
  match Record.ofRow? row with
  | some record => saved record source
  | none => Problem.saveFailed.response

/-- Stores an assessed submission: the answer, and the database after it. -/
def save (build : Build) (db : Database) (stamp : Stamp) (submission : Submission)
    (outcome : Outcome) : Response × Database :=
  match db.addAnalysis stamp (freshAnalysis submission outcome.report) with
  | .error _ => (Problem.saveFailed.response, db)
  | .ok (row, db) =>
    match db.countAnalysis build stamp row with
    | .ok db => (recorded row outcome.source, db)
    | .error (.refused _) => (recorded row outcome.source, db)
    | .error .overflow => (Problem.saveFailed.response, db)

/-- Assesses a submission and stores it. -/
def submit (build : Build) (model : Option Model) (stamp : Stamp) (database : Option Database)
    (submission : Submission) : Handled :=
  let outcome := submission.request.consult model
  match database with
  | none => ⟨Problem.saveFailed.response, none, outcome.asked⟩
  | some db =>
    let (response, db) := save build db stamp submission outcome
    ⟨response, some db, outcome.asked⟩

/-- What is read from a database; none when it cannot be reached or the statement fails. -/
def reading? {α : Type} (database : Option Database) (read : Database → Except ArchiveError α) :
    Option α :=
  database.bind fun db => (read db).toOption

def lookup (database : Option Database) (id : String) : Response :=
  match reading? database fun db => db.analysis? id with
  | some (some row) =>
    match Record.ofRow? row with
    | some record => success [Json.field "analysis" record.toJson]
    | none => Problem.lookupFailed.response
  | some none => Problem.notFound.response
  | none => Problem.lookupFailed.response

def listing (database : Option Database) (userId : String) (limit : Nat) : Response :=
  match (reading? database fun db => db.analysesOf userId limit).bind (Json.all? Record.ofRow?) with
  | some records => success [Json.field "analyses" (.array (records.map Record.toJson))]
  | none => Problem.listFailed.response

def rankedJson (entry : Record × Option String) : Json := .object [
  Json.field "analysis" entry.1.toJson, Json.field "userName" (.text? entry.2)]

def ranked? (row : AnalysisRow × Option String) : Option (Record × Option String) :=
  (Record.ofRow? row.1).map fun record => (record, row.2)

def ranking (database : Option Database) (limit : Nat) : Response :=
  match (reading? database fun db => db.bestAnalyses limit).bind (Json.all? ranked?) with
  | some entries => success [Json.field "leaderboard" (.array (entries.map rankedJson))]
  | none => Problem.leaderboardFailed.response

/-- The answer to a listing as its query asks for it; a query that repeats a field is rejected. -/
def userQuery (database : Option Database) (query : List (String × String)) : Response :=
  match formValue? query "userId", formValue? query "limit" with
  | some userId, some limitText =>
    match nonBlank? userId with
    | some userId => listing database userId (limit limitText)
    | none => Problem.missingUser.response
  | _, _ => rejected 400

/-- The leaderboard as its query asks for it; a query that repeats a field is rejected. -/
def rankingQuery (database : Option Database) (query : List (String × String)) : Response :=
  match formValue? query "limit" with
  | some limitText => ranking database (limit limitText)
  | none => rejected 400

/-- The draft in the body of a request. -/
def draft? (request : Request) : Option Draft := (bodyDocument? request).bind Draft.ofJson?

/-- Handles a submission: a body that is no draft is rejected, and one with missing fields is
answered without asking anything of the model or the database. -/
def handleSubmission (build : Build) (model : Option Model) (stamp : Stamp)
    (database : Option Database) (request : Request) : Handled :=
  match draft? request with
  | none => ⟨rejected (refusalStatus request), database, []⟩
  | some draft =>
    match draft.submission? with
    | none => ⟨Problem.missingFields.response, database, []⟩
    | some submission => submit build model stamp database submission

def handle (build : Build) (model : Option Model) (stamp : Stamp) (database : Option Database)
    (request : Request) : Handled :=
  match route? request with
  | none => ⟨rejected 404, database, []⟩
  | some .probe => ⟨probe stamp.now model.isSome database.isSome, database, []⟩
  | some .submit => handleSubmission build model stamp database request
  | some (.lookup id) => ⟨lookup database id, database, []⟩
  | some (.listing query) => ⟨userQuery database query, database, []⟩
  | some (.ranking query) => ⟨rankingQuery database query, database, []⟩
  | some .document => ⟨⟨200, some Outline.document⟩, database, []⟩

end Appraisal.Web
