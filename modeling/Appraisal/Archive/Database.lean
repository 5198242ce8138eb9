import Appraisal.Report
import Appraisal.Json.Writer
import Appraisal.Archive.Basic

/-!
# The database

An archive whose statements may fail for reasons of their own. `addAnalysis` and `countAnalysis`
are transactions: they give a new archive only when each of their statements succeeds. Between the
statements of `countAnalysis` a count is raised, and what becomes of one that has no successor is a
matter of how the program is built.
-/

namespace Appraisal

/-- The kinds of statements. -/
inductive Statement where
  | insertUser
  | insertAnalysis
  | findAnalysis
  | listAnalyses
  | rankAnalyses
  | readProgress
  | writeProgress
deriving DecidableEq, Repr

/-- An archive, which of its statements fail whatever they ask, and whether an id of a user is short
enough for the indexes over the analyses. -/
structure Database where
  archive : Archive
  broken : Statement → Bool := fun _ => false
  indexable : String → Bool := fun _ => true

/-- How the program is built. A sum that does not fit its type stops a request in a debug build, and
wraps around in a release build. -/
inductive Build where
  | debug
  | release
deriving DecidableEq, Repr

/-- Why an analysis is not counted. -/
inductive CountError where
  | refused (error : ArchiveError)
  | overflow
deriving DecidableEq, Repr

/-- A scored submission that is to be stored. -/
structure FreshAnalysis where
  userId : String
  title : String
  code : String
  language : String
  targetCompany : String
  report : Report

/-- What a submission takes from outside: two fresh ids and the time. -/
structure Stamp where
  analysisId : String
  progressId : String
  now : Instant
deriving DecidableEq, Repr

def FreshAnalysis.row (new : FreshAnalysis) (stamp : Stamp) : AnalysisRow where
  id := stamp.analysisId
  userId := new.userId
  title := new.title
  code := new.code
  language := new.language
  targetCompany := new.targetCompany
  overallScore := .ofNat new.report.overallScore.toNat
  timeComplexity := new.report.timeComplexity
  spaceComplexity := new.report.spaceComplexity
  report := new.report.toJson.encode
  fileUrl := none
  createdAt := stamp.now

namespace Database

/-- Runs a statement, unless it is one that fails. -/
def run {α : Type} (db : Database) (statement : Statement) (result : Except ArchiveError α) :
    Except ArchiveError α :=
  if db.broken statement then .error .refused else result

def withArchive (db : Database) (archive : Archive) : Database := { db with archive := archive }

def addUser (db : Database) (userId : String) : Except ArchiveError Database :=
  (db.run .insertUser (db.archive.addUser userId)).map db.withArchive

def insertAnalysis (db : Database) (row : AnalysisRow) : Except ArchiveError Database :=
  if db.indexable row.userId then
    (db.run .insertAnalysis (db.archive.insertAnalysis row)).map db.withArchive
  else .error .refused

/-- Stores an analysis, together with its user where there is none. -/
def addAnalysis (db : Database) (stamp : Stamp) (new : FreshAnalysis) :
    Except ArchiveError (AnalysisRow × Database) := do
  let row := new.row stamp
  let db ← db.addUser new.userId
  let db ← db.insertAnalysis row
  return (row, db)

def analysis? (db : Database) (id : String) : Except ArchiveError (Option AnalysisRow) :=
  db.run .findAnalysis (db.archive.analysis? id)

def analysesOf (db : Database) (userId : String) (limit : Nat) :
    Except ArchiveError (List AnalysisRow) :=
  db.run .listAnalyses (db.archive.analysesOf userId limit)

def bestAnalyses (db : Database) (limit : Nat) :
    Except ArchiveError (List (AnalysisRow × Option String)) :=
  db.run .rankAnalyses (.ok (db.archive.bestAnalyses limit))

def progress? (db : Database) (userId : String) : Except ArchiveError (Option ProgressRow) :=
  db.run .readProgress (db.archive.progress? userId)

/-- The progress of a user after one more analysis, given what was read of it before. -/
def progressAfter (stamp : Stamp) (row : AnalysisRow) (read : Option ProgressRow) :
    ProgressRow where
  id := stamp.progressId
  userId := row.userId
  totals := .next (read.map (·.totals)) row.overallScore.toInt row.language row.targetCompany

def writeProgress (db : Database) (row : ProgressRow) : Except ArchiveError Database :=
  (db.run .writeProgress (db.archive.writeProgress row)).map db.withArchive

/-- Whether the count of analyses that was read has no successor, where that stops a request. -/
def overflows (build : Build) (read : Option ProgressRow) : Bool :=
  build == .debug && read.any fun before => before.totals.isFull

/-- Folds an analysis into the progress of its user. -/
def countAnalysis (build : Build) (db : Database) (stamp : Stamp) (row : AnalysisRow) :
    Except CountError Database := do
  let read ← (db.progress? row.userId).mapError .refused
  if overflows build read then throw .overflow
  (db.writeProgress (progressAfter stamp row read)).mapError .refused

end Database

end Appraisal
