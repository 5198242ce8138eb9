import Appraisal.Proofs.Statements
import Appraisal.Web.Server

/-!
# Exchanges

Requests are handled one after another, each with its own model, fresh ids, time and state of the
database. Reads and refused submissions leave the archive as it was, and a submission that is
taken adds one analysis and then counts it (`after_cases`). It is counted unless a statement fails
or the count overflows (`counted_stored`).
-/

namespace Appraisal.Web

/-- A request and what it meets: the model, what is taken from outside, whether the database can
be reached, which of its statements fail, which ids of users are short enough for its indexes, and
how the program is built. -/
structure Exchange where
  request : Request
  model : Option Model
  stamp : Stamp
  reachable : Bool := true
  broken : Statement → Bool := fun _ => false
  indexable : String → Bool := fun _ => true
  build : Build := .release

/-- The database after an analysis was counted, or could not be. -/
def counted (build : Build) (db : Database) (stamp : Stamp) (row : AnalysisRow) : Database :=
  match db.countAnalysis build stamp row with
  | .ok db => db
  | .error _ => db

section Counted

variable {build : Build} {db after : Database} {stamp : Stamp} {row : AnalysisRow}
  {read : Option ProgressRow}

theorem countAnalysis_of_overflows (hr : db.progress? row.userId = .ok read)
    (ho : Database.overflows build read = true) :
    db.countAnalysis build stamp row = .error .overflow := by
  simp only [Database.countAnalysis, hr, Except.mapError, bind, Except.bind, ho, if_true]
  rfl

theorem countAnalysis_of_progress? (hr : db.progress? row.userId = .ok read)
    (ho : Database.overflows build read = false) :
    db.countAnalysis build stamp row =
      (db.writeProgress (Database.progressAfter stamp row read)).mapError .refused := by
  simp only [Database.countAnalysis, hr, Except.mapError, bind, Except.bind, ho]
  rfl

theorem countAnalysis_of_error {error : ArchiveError}
    (hr : db.progress? row.userId = .error error) :
    db.countAnalysis build stamp row = .error (.refused error) := by
  simp only [Database.countAnalysis, hr, Except.mapError, bind, Except.bind]

/-- An analysis is counted when the progress was read, has a successor, and was written. -/
theorem countAnalysis_eq_ok_iff :
    db.countAnalysis build stamp row = .ok after ↔ ∃ read, db.progress? row.userId = .ok read ∧
      Database.overflows build read = false ∧
      db.writeProgress (Database.progressAfter stamp row read) = .ok after := by
  cases hr : db.progress? row.userId with
  | error e => simp [countAnalysis_of_error hr]
  | ok read =>
    cases ho : Database.overflows build read with
    | true => simp [countAnalysis_of_overflows hr ho, ho]
    | false =>
      rw [countAnalysis_of_progress? hr ho]
      cases hw : db.writeProgress (Database.progressAfter stamp row read) <;>
        simp [Except.mapError, ho, hw]

theorem countAnalysis_eq_overflow_iff :
    db.countAnalysis build stamp row = .error .overflow ↔
      ∃ read, db.progress? row.userId = .ok read ∧ Database.overflows build read = true := by
  cases hr : db.progress? row.userId with
  | error e => simp [countAnalysis_of_error hr]
  | ok read =>
    cases ho : Database.overflows build read with
    | true => simp [countAnalysis_of_overflows hr ho, ho]
    | false =>
      rw [countAnalysis_of_progress? hr ho]
      cases db.writeProgress (Database.progressAfter stamp row read) <;>
        simp [Except.mapError, ho]

/-- Counting an analysis writes at most progress. -/
theorem counted_cases (build : Build) (db : Database) (stamp : Stamp) (row : AnalysisRow) :
    (counted build db stamp row).archive = db.archive ∨
      ∃ read, db.progress? row.userId = .ok read ∧ Database.overflows build read = false ∧
        (counted build db stamp row).archive =
          db.archive.withProgress (Database.progressAfter stamp row read) := by
  unfold counted
  cases hc : db.countAnalysis build stamp row with
  | error e => exact .inl rfl
  | ok after =>
    obtain ⟨read, hr, ho, hw⟩ := countAnalysis_eq_ok_iff.1 hc
    obtain ⟨-, -, -, -, rfl⟩ := Database.writeProgress_eq_ok_iff.1 hw
    exact .inr ⟨read, hr, ho, rfl⟩

theorem users_counted (build : Build) (db : Database) (stamp : Stamp) (row : AnalysisRow) :
    (counted build db stamp row).archive.users = db.archive.users := by
  obtain h | ⟨read, -, -, h⟩ := counted_cases build db stamp row <;> rw [h]
  rfl

theorem analyses_counted (build : Build) (db : Database) (stamp : Stamp) (row : AnalysisRow) :
    (counted build db stamp row).archive.analyses = db.archive.analyses := by
  obtain h | ⟨read, -, -, h⟩ := counted_cases build db stamp row <;> rw [h]
  rfl

end Counted

namespace Exchange

/-- The database that a request meets over an archive. -/
def upon (exchange : Exchange) (archive : Archive) : Database :=
  ⟨archive, exchange.broken, exchange.indexable⟩

def database? (exchange : Exchange) (archive : Archive) : Option Database :=
  if exchange.reachable then some (exchange.upon archive) else none

def handled (exchange : Exchange) (archive : Archive) : Handled :=
  handle exchange.build exchange.model exchange.stamp (exchange.database? archive) exchange.request

def after (archive : Archive) (exchange : Exchange) : Archive :=
  ((exchange.handled archive).database.map (·.archive)).getD archive

/-- The archive after one request and another. -/
def run (archive : Archive) (exchanges : List Exchange) : Archive := exchanges.foldl after archive

/-- The submission in the request, if it is one with everything that it needs. -/
def submission? (exchange : Exchange) : Option Submission :=
  match route? exchange.request with
  | some .submit => (draft? exchange.request).bind Draft.submission?
  | _ => none

def outcome (exchange : Exchange) (submission : Submission) : Outcome :=
  submission.request.consult exchange.model

def fresh (exchange : Exchange) (submission : Submission) : FreshAnalysis :=
  freshAnalysis submission (exchange.outcome submission).report

def row (exchange : Exchange) (submission : Submission) : AnalysisRow :=
  (exchange.fresh submission).row exchange.stamp

/-- Whether a submission is taken: its row is stored. -/
structure Takes (exchange : Exchange) (archive : Archive) (submission : Submission) : Prop where
  sent : exchange.submission? = some submission
  reachable : exchange.reachable = true
  insertUser : exchange.broken .insertUser = false
  insertAnalysis : exchange.broken .insertAnalysis = false
  indexable : exchange.indexable submission.userId = true
  admits : archive.Admits (exchange.row submission)

/-- Whether no statement keeps a stored analysis from being counted. -/
structure Counts (exchange : Exchange) : Prop where
  read : exchange.broken .readProgress = false
  write : exchange.broken .writeProgress = false
  id : Archive.holdsTexts [exchange.stamp.progressId] = true

/-- Whether counting one more analysis of a user overflows, which ends the request. -/
structure Overflows (exchange : Exchange) (archive : Archive) (userId : String) : Prop where
  build : exchange.build = .debug
  read : exchange.broken .readProgress = false
  full : (archive.totalsOf userId).any Totals.isFull = true

theorem archive_database? (exchange : Exchange) (archive : Archive) :
    ((exchange.database? archive).map (·.archive)).getD archive = archive := by
  unfold database?
  split_ifs <;> rfl

theorem database?_of_reachable {exchange : Exchange} (h : exchange.reachable = true)
    (archive : Archive) : exchange.database? archive = some (exchange.upon archive) :=
  if_pos h

theorem handled_database (exchange : Exchange) (archive : Archive) :
    (exchange.handled archive).database =
      match exchange.submission? with
      | none => exchange.database? archive
      | some submission => (submit exchange.build exchange.model exchange.stamp
        (exchange.database? archive) submission).database := by
  unfold handled handle submission?
  cases route? exchange.request with
  | none => rfl
  | some route =>
    cases route with
    | submit =>
      show (handleSubmission _ _ _ _ _).database = _
      unfold handleSubmission
      cases draft? exchange.request with
      | none => rfl
      | some draft => cases h : draft.submission? <;> simp [h]
    | probe | lookup _ | listing _ | ranking _ | document => rfl

section Save

variable {build : Build} {db after : Database} {stamp : Stamp} {submission : Submission}
  {outcome : Outcome} {row : AnalysisRow}

theorem save_of_error {error : ArchiveError}
    (h : db.addAnalysis stamp (freshAnalysis submission outcome.report) = .error error) :
    save build db stamp submission outcome = (Problem.saveFailed.response, db) := by
  unfold save
  rw [h]

theorem save_of_overflow
    (h : db.addAnalysis stamp (freshAnalysis submission outcome.report) = .ok (row, after))
    (ho : after.countAnalysis build stamp row = .error .overflow) :
    save build db stamp submission outcome = (Problem.saveFailed.response, after) := by
  unfold save
  simp only [h, ho]

theorem save_of_ok
    (h : db.addAnalysis stamp (freshAnalysis submission outcome.report) = .ok (row, after))
    (ho : after.countAnalysis build stamp row ≠ .error .overflow) :
    save build db stamp submission outcome =
      (recorded row outcome.source, counted build after stamp row) := by
  unfold save counted
  simp only [h]
  cases hc : after.countAnalysis build stamp row with
  | ok db => rfl
  | error e =>
    cases e with
    | refused error => rfl
    | overflow => exact absurd hc ho

/-- What is kept of an analysis that is stored, whether it is counted or not. -/
theorem database_save_of_ok
    (h : db.addAnalysis stamp (freshAnalysis submission outcome.report) = .ok (row, after)) :
    (save build db stamp submission outcome).2 = counted build after stamp row := by
  by_cases ho : after.countAnalysis build stamp row = .error .overflow
  · rw [save_of_overflow h ho, counted, ho]
  · rw [save_of_ok h ho]

end Save

/-- A request leaves the archive as it was, or it takes a submission and then tries to count it. -/
theorem after_cases (exchange : Exchange) (archive : Archive) :
    exchange.after archive = archive ∨
      ∃ submission, exchange.Takes archive submission ∧
        exchange.after archive =
          (counted exchange.build (exchange.upon (archive.stored (exchange.row submission)))
            exchange.stamp (exchange.row submission)).archive := by
  have hafter : exchange.after archive =
      ((exchange.handled archive).database.map (·.archive)).getD archive := rfl
  rw [handled_database] at hafter
  cases hs : exchange.submission? with
  | none =>
    rw [hs] at hafter
    exact .inl (hafter.trans (archive_database? exchange archive))
  | some submission =>
    rw [hs] at hafter
    by_cases hr : exchange.reachable = true
    · rw [database?_of_reachable hr] at hafter
      replace hafter : exchange.after archive = (save exchange.build (exchange.upon archive)
        exchange.stamp submission (exchange.outcome submission)).2.archive := hafter
      cases hadd : (exchange.upon archive).addAnalysis exchange.stamp
          (freshAnalysis submission (exchange.outcome submission).report) with
      | error e =>
        rw [save_of_error hadd] at hafter
        exact .inl hafter
      | ok stored =>
        obtain ⟨row, db⟩ := stored
        rw [database_save_of_ok hadd] at hafter
        obtain ⟨hu, hi, hidx, hadm, rfl, rfl⟩ := Database.addAnalysis_eq_ok_iff.1 hadd
        exact .inr ⟨submission, ⟨hs, hr, hu, hi, hidx, hadm⟩, hafter⟩
    · have hdb : exchange.database? archive = none := if_neg hr
      rw [hdb] at hafter
      exact .inl hafter

section Stored

variable {exchange : Exchange} {archive : Archive} {row : AnalysisRow}

/-- What is read of the progress after an analysis was stored. -/
theorem progress?_stored (hb : exchange.broken .readProgress = false) (h : archive.Admits row) :
    (exchange.upon (archive.stored row)).progress? row.userId =
      .ok (archive.progress.find? fun other => other.userId == row.userId) := by
  have hprogress := Archive.progress_stored archive row
  refine Database.progress?_eq_ok_iff.2 ⟨hb, h.holds (by simp [Archive.rowTexts]), ?_⟩
  rw [upon, hprogress]

theorem overflows_find? (exchange : Exchange) (archive : Archive) (userId : String) :
    Database.overflows exchange.build
        (archive.progress.find? fun other => other.userId == userId) =
      (exchange.build == .debug && (archive.totalsOf userId).any Totals.isFull) := by
  rw [Database.overflows, Archive.totalsOf, Option.any_map]

/-- Counting a stored analysis overflows exactly when the count had no successor before. -/
theorem countAnalysis_eq_overflow_iff (h : archive.Admits row) :
    (exchange.upon (archive.stored row)).countAnalysis exchange.build exchange.stamp row =
      .error .overflow ↔ exchange.Overflows archive row.userId := by
  rw [Web.countAnalysis_eq_overflow_iff]
  constructor
  · rintro ⟨read, hread, ho⟩
    have hb : exchange.broken .readProgress = false :=
      (Database.progress?_eq_ok_iff.1 hread).1
    rw [progress?_stored hb h] at hread
    cases hread
    rw [overflows_find?, Bool.and_eq_true, beq_iff_eq] at ho
    exact ⟨ho.1, hb, ho.2⟩
  · rintro ⟨hbuild, hb, hfull⟩
    refine ⟨_, progress?_stored hb h, ?_⟩
    rw [overflows_find?, hbuild, hfull]
    rfl

/-- An analysis that is stored is counted, unless the statements for it fail or the count
overflows. -/
theorem counted_stored (hc : exchange.Counts) (h : archive.Admits row)
    (ho : ¬ exchange.Overflows archive row.userId)
    (hroom : archive.hasRoomFor (Database.progressAfter exchange.stamp row
      (archive.progress.find? fun other => other.userId == row.userId)) = true) :
    (counted exchange.build (exchange.upon (archive.stored row)) exchange.stamp row).archive =
      (archive.stored row).withProgress (Database.progressAfter exchange.stamp row
        (archive.progress.find? fun other => other.userId == row.userId)) := by
  have hread := progress?_stored hc.read h
  have hfits : Database.overflows exchange.build
      (archive.progress.find? fun other => other.userId == row.userId) = false := by
    rw [← Bool.not_eq_true]
    exact fun hfull => ho ((countAnalysis_eq_overflow_iff h).1
      (countAnalysis_of_overflows hread hfull))
  have hroom' : (archive.stored row).hasRoomFor (Database.progressAfter exchange.stamp row
      (archive.progress.find? fun other => other.userId == row.userId)) = true := by
    rwa [Archive.hasRoomFor, Archive.progress_stored]
  have hwrite := Database.writeProgress_progressAfter (exchange.upon (archive.stored row))
    hc.write hc.id h (archive.hasUser_stored row) hroom'
  rw [counted, countAnalysis_of_progress? hread hfits, hwrite]
  rfl

end Stored

end Exchange

end Appraisal.Web
