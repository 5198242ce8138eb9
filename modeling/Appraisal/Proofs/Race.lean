import Appraisal.Proofs.Consistency
import Mathlib.Data.List.Basic

/-!
# Submissions handled at the same time

A job is cut where other jobs may come in between: the analysis is stored in one transaction, and
in another one the progress of the user is read and then written. A job that runs alone does what
`save` does (`alone_eq_save`). What a race looks like to one user is a `View`, and each step of
the race is a `Turn` of that view or does not concern the user (`view_step`).
-/

namespace Appraisal

/-- How far a submission has come. The last two stages are those of a failure, before the analysis
is stored and after it. -/
inductive Stage where
  | waiting
  | stored
  | counting (read : Option ProgressRow)
  | finished
  | refused
  | uncounted
deriving DecidableEq

/-- A submission that is being handled. -/
structure Job where
  stamp : Stamp
  fresh : FreshAnalysis
  stage : Stage := .waiting

/-- A database and the submissions that are being handled. -/
structure Race where
  db : Database
  jobs : List Job

namespace Job

def row (job : Job) : AnalysisRow := job.fresh.row job.stamp

def moved (job : Job) (stage : Stage) : Job := { job with stage := stage }

@[simp] theorem row_moved (job : Job) (stage : Stage) : (job.moved stage).row = job.row := rfl

@[simp] theorem stage_moved (job : Job) (stage : Stage) : (job.moved stage).stage = stage := rfl

/-- The next stage of a job, and the database after it. A count that overflows ends the job after
the read. -/
def advance (build : Build) (job : Job) (db : Database) : Stage × Database :=
  match job.stage with
  | .waiting =>
    match db.addAnalysis job.stamp job.fresh with
    | .ok (_, after) => (.stored, after)
    | .error _ => (.refused, db)
  | .stored =>
    match db.progress? job.row.userId with
    | .ok read => (if Database.overflows build read then .uncounted else .counting read, db)
    | .error _ => (.uncounted, db)
  | .counting read =>
    match db.writeProgress (Database.progressAfter job.stamp job.row read) with
    | .ok after => (.finished, after)
    | .error _ => (.uncounted, db)
  | stage => (stage, db)

/-- What a job may do next. It succeeds or fails at what is due, or it has come to an end. -/
inductive Advance (job : Job) (db : Database) : Stage × Database → Prop
  | store (hs : job.stage = .waiting) (ha : db.archive.Admits job.row) :
      Advance job db (.stored, db.withArchive (db.archive.stored job.row))
  | refuse (hs : job.stage = .waiting) : Advance job db (.refused, db)
  | read {read : Option ProgressRow} (hs : job.stage = .stored)
      (hr : read.map (·.totals) = db.archive.totalsOf job.row.userId) :
      Advance job db (.counting read, db)
  | write {read : Option ProgressRow} (hs : job.stage = .counting read) :
      Advance job db (.finished, db.withArchive
        (db.archive.withProgress (Database.progressAfter job.stamp job.row read)))
  | drop (hs : job.stage = .stored ∨ ∃ read, job.stage = .counting read) :
      Advance job db (.uncounted, db)
  | rest : Advance job db (job.stage, db)

theorem advance_cases (build : Build) (job : Job) (db : Database) :
    job.Advance db (job.advance build db) := by
  unfold advance
  split
  · next hs =>
    split
    · next hadd =>
      obtain ⟨-, -, -, ha, -, rfl⟩ := Database.addAnalysis_eq_ok_iff.1 hadd
      exact .store hs ha
    · exact .refuse hs
  · next hs =>
    split
    · next hread =>
      obtain ⟨-, -, rfl⟩ := Database.progress?_eq_ok_iff.1 hread
      split_ifs
      · exact .drop (.inl hs)
      · exact .read hs rfl
    · exact .drop (.inl hs)
  · next read hs =>
    split
    · next hwrite =>
      obtain ⟨-, -, -, -, rfl⟩ := Database.writeProgress_eq_ok_iff.1 hwrite
      exact .write hs
    · exact .drop (.inr ⟨read, hs⟩)
  · exact .rest

end Job

namespace Race

/-- The race after the job at a place has done its next step. -/
def step (build : Build) (race : Race) (i : Nat) : Race :=
  match race.jobs[i]? with
  | none => race
  | some job =>
    ⟨(job.advance build race.db).2, race.jobs.set i (job.moved (job.advance build race.db).1)⟩

variable {build : Build}

theorem step_of_getElem? {race : Race} {i : Nat} {job : Job} (hi : race.jobs[i]? = some job) :
    race.step build i =
      ⟨(job.advance build race.db).2,
        race.jobs.set i (job.moved (job.advance build race.db).1)⟩ := by
  unfold step
  rw [hi]

/-- The race after these jobs, each named by its place, have done a step in turn. -/
def run (build : Build) (race : Race) (schedule : List Nat) : Race :=
  schedule.foldl (step build) race

@[simp] theorem run_cons (race : Race) (i : Nat) (schedule : List Nat) :
    race.run build (i :: schedule) = (race.step build i).run build schedule := rfl

theorem run_append (race : Race) (first second : List Nat) :
    race.run build (first ++ second) = (race.run build first).run build second :=
  List.foldl_append

end Race

/-- A job that no other comes in between of does what the server does with a submission. -/
theorem Race.alone_eq_save (build : Build) (db : Database) (stamp : Stamp) (submission : Submission)
    (outcome : Outcome) :
    (Race.run build ⟨db, [⟨stamp, Web.freshAnalysis submission outcome.report, .waiting⟩]⟩
      [0, 0, 0]).db = (Web.save build db stamp submission outcome).2 := by
  cases hadd : db.addAnalysis stamp (Web.freshAnalysis submission outcome.report) with
  | error e =>
    rw [Web.Exchange.save_of_error hadd]
    simp [Race.run, Race.step, Job.advance, Job.moved, hadd]
  | ok stored =>
    obtain ⟨row, after⟩ := stored
    rw [Web.Exchange.database_save_of_ok hadd]
    obtain ⟨-, -, -, -, rfl, -⟩ := Database.addAnalysis_eq_ok_iff.1 hadd
    have hrow : Job.row ⟨stamp, Web.freshAnalysis submission outcome.report, .stored⟩ =
      (Web.freshAnalysis submission outcome.report).row stamp := rfl
    cases hread : after.progress?
        ((Web.freshAnalysis submission outcome.report).row stamp).userId with
    | error e =>
      simp [Race.run, Race.step, Job.advance, Job.moved, hadd, hrow, hread, Web.counted,
        Web.countAnalysis_of_error hread]
    | ok read =>
      have hrow' : Job.row ⟨stamp, Web.freshAnalysis submission outcome.report, .counting read⟩ =
        (Web.freshAnalysis submission outcome.report).row stamp := rfl
      cases ho : Database.overflows build read with
      | true =>
        simp [Race.run, Race.step, Job.advance, Job.moved, hadd, hrow, hread, ho, Web.counted,
          Web.countAnalysis_of_overflows hread ho]
      | false =>
        cases hwrite : after.writeProgress (Database.progressAfter stamp
            ((Web.freshAnalysis submission outcome.report).row stamp) read) <;>
          simp [Race.run, Race.step, Job.advance, Job.moved, hadd, hrow, hread, ho, hrow', hwrite,
            Web.counted, Web.countAnalysis_of_progress? hread ho, Except.mapError]

/-- What a race looks like to a user: the user's analyses and totals, and the jobs at their places
without those of others. -/
structure View where
  rows : List AnalysisRow
  totals : Option Totals
  jobs : List (Option Job)

namespace View

/-- The steps of a user's own jobs. -/
inductive Turn (view : View) : View → Prop
  | store {i : Nat} {job : Job} (hi : view.jobs[i]? = some (some job))
      (hs : job.stage = .waiting) (hn : 0 ≤ job.row.overallScore.toInt) :
      Turn view ⟨view.rows ++ [Archive.kept job.row], view.totals,
        view.jobs.set i (some (job.moved .stored))⟩
  | refuse {i : Nat} {job : Job} (hi : view.jobs[i]? = some (some job))
      (hs : job.stage = .waiting) :
      Turn view ⟨view.rows, view.totals, view.jobs.set i (some (job.moved .refused))⟩
  | read {i : Nat} {job : Job} {read : Option ProgressRow}
      (hi : view.jobs[i]? = some (some job)) (hs : job.stage = .stored)
      (hr : read.map (·.totals) = view.totals) :
      Turn view ⟨view.rows, view.totals, view.jobs.set i (some (job.moved (.counting read)))⟩
  | write {i : Nat} {job : Job} {read : Option ProgressRow}
      (hi : view.jobs[i]? = some (some job)) (hs : job.stage = .counting read) :
      Turn view ⟨view.rows, some (Totals.next (read.map (·.totals)) job.row.overallScore.toInt
        job.row.language job.row.targetCompany), view.jobs.set i (some (job.moved .finished))⟩
  | drop {i : Nat} {job : Job} (hi : view.jobs[i]? = some (some job))
      (hs : job.stage = .stored ∨ ∃ read, job.stage = .counting read) :
      Turn view ⟨view.rows, view.totals, view.jobs.set i (some (job.moved .uncounted))⟩

end View

/-- The job, if it is one of the user. -/
def Job.of? (userId : String) (job : Job) : Option Job :=
  if job.row.userId = userId then some job else none

namespace Race

/-- What the race looks like to a user. -/
def view (race : Race) (userId : String) : View where
  rows := race.db.archive.rowsOf userId
  totals := race.db.archive.totalsOf userId
  jobs := race.jobs.map (Job.of? userId)

section Steps

variable {build : Build} {race : Race} {i : Nat} {job : Job} {userId : String}

theorem view_set_of_ne {db : Database} {stage : Stage} (hi : race.jobs[i]? = some job)
    (hu : job.row.userId ≠ userId)
    (hrows : db.archive.rowsOf userId = race.db.archive.rowsOf userId)
    (htotals : db.archive.totalsOf userId = race.db.archive.totalsOf userId) :
    view ⟨db, race.jobs.set i (job.moved stage)⟩ userId = race.view userId := by
  obtain ⟨hlt, rfl⟩ := List.getElem?_eq_some_iff.1 hi
  have hjobs : (race.jobs.set i (race.jobs[i].moved stage)).map (Job.of? userId) =
      race.jobs.map (Job.of? userId) := by
    have hof : Job.of? userId (race.jobs[i].moved stage) = Job.of? userId race.jobs[i] := by
      rw [Job.of?, Job.of?, Job.row_moved, if_neg hu, if_neg hu]
    have hself := List.set_getElem_self
      (show i < (race.jobs.map (Job.of? userId)).length by simpa using hlt)
    rw [List.getElem_map] at hself
    rw [List.map_set, hof, hself]
  simp only [view, hrows, htotals, hjobs]

theorem view_set_of_eq {db : Database} {stage : Stage} (hu : job.row.userId = userId) :
    view ⟨db, race.jobs.set i (job.moved stage)⟩ userId =
      ⟨db.archive.rowsOf userId, db.archive.totalsOf userId,
        (race.view userId).jobs.set i (some (job.moved stage))⟩ := by
  have hof : Job.of? userId (job.moved stage) = some (job.moved stage) := if_pos hu
  simp only [view, List.map_set, hof]

theorem jobs_view (hi : race.jobs[i]? = some job) (hu : job.row.userId = userId) :
    (race.view userId).jobs[i]? = some (some job) := by
  have hof : Job.of? userId job = some job := if_pos hu
  show (race.jobs.map (Job.of? userId))[i]? = _
  rw [List.getElem?_map, hi, Option.map_some, hof]

theorem view_of_ne (hi : race.jobs[i]? = some job) (hu : job.row.userId ≠ userId) :
    (race.step build i).view userId = race.view userId := by
  have ha := job.advance_cases build race.db
  rw [step_of_getElem? hi]
  generalize job.advance build race.db = next at ha ⊢
  cases ha with
  | store hs ha =>
    exact view_set_of_ne hi hu (Archive.rowsOf_stored_of_ne hu _) (Archive.totalsOf_stored _ _ _)
  | write hs =>
    exact view_set_of_ne hi hu rfl (Archive.totalsOf_withProgress_of_ne (Ne.symm hu) _)
  | refuse _ | read _ _ | drop _ | rest => exact view_set_of_ne hi hu rfl rfl

theorem view_of_eq (hi : race.jobs[i]? = some job) (hu : job.row.userId = userId) :
    (race.step build i).view userId = race.view userId ∨
      (race.view userId).Turn ((race.step build i).view userId) := by
  subst hu
  have hv := jobs_view hi rfl
  have ha := job.advance_cases build race.db
  rw [step_of_getElem? hi, view_set_of_eq rfl]
  generalize job.advance build race.db = next at ha ⊢
  cases ha with
  | store hs ha =>
    refine .inr ?_
    rw [Database.archive_withArchive, Archive.rowsOf_stored_self, Archive.totalsOf_stored]
    exact .store hv hs ha.nonneg
  | refuse hs => exact .inr (.refuse hv hs)
  | read hs hr => exact .inr (.read hv hs hr)
  | @write read hs =>
    have htotals := Archive.totalsOf_withProgress_self race.db.archive
      (Database.progressAfter job.stamp job.row read)
    refine .inr ?_
    rw [Database.archive_withArchive, Archive.rowsOf_withProgress]
    exact htotals ▸ .write hv hs
  | drop hs => exact .inr (.drop hv hs)
  | rest =>
    obtain ⟨hlt, he⟩ := List.getElem?_eq_some_iff.1 hv
    have hself : (race.view job.row.userId).jobs.set i (some job) =
        (race.view job.row.userId).jobs := by
      rw [← he]
      exact List.set_getElem_self hlt
    exact .inl (congrArg (View.mk _ _) hself)

/-- A step of a race is a turn of each view, or it does not change the view. -/
theorem view_step (build : Build) (race : Race) (i : Nat) (userId : String) :
    (race.step build i).view userId = race.view userId ∨
      (race.view userId).Turn ((race.step build i).view userId) := by
  cases hi : race.jobs[i]? with
  | none =>
    refine .inl ?_
    unfold step
    rw [hi]
  | some job =>
    by_cases hu : job.row.userId = userId
    · exact view_of_eq hi hu
    · exact .inl (view_of_ne hi hu)

end Steps

end Race

end Appraisal
