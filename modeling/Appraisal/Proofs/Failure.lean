import Appraisal.Proofs.Durability

/-!
# Requests that fail

A request that is answered with an error leaves every table as it was, also where the first
statement of a transaction succeeded and the next one did not (`traceless_iff_fits`). A request that
lacks what it needs is refused before anything is asked of the database. Counting an analysis may
fail without an error: the analysis and its user are stored then, and the progress stays what it
was. The one exception is a count that overflows in a debug build: it ends the request with an error
after the analysis was stored (`traced_of_overflow`).
-/

namespace Appraisal

theorem filled_of_nonBlank? {text : Option String} {given : String}
    (h : nonBlank? text = some given) : text = some given ∧ Text.isBlank given = false := by
  obtain ⟨ht, hb⟩ := Option.filter_eq_some_iff.1 h
  exact ⟨ht, by simpa using hb⟩

theorem Draft.exists_submission_iff {draft : Draft} :
    (∃ submission, draft.submission? = some submission) ↔ draft.Filled := by
  constructor
  · rintro ⟨submission, h⟩
    obtain ⟨code, hcode, h⟩ := Option.bind_eq_some_iff.1 h
    obtain ⟨language, hlanguage, h⟩ := Option.bind_eq_some_iff.1 h
    obtain ⟨company, hcompany, h⟩ := Option.bind_eq_some_iff.1 h
    obtain ⟨user, huser, -⟩ := Option.bind_eq_some_iff.1 h
    exact ⟨⟨code, filled_of_nonBlank? hcode⟩, ⟨language, filled_of_nonBlank? hlanguage⟩,
      ⟨company, filled_of_nonBlank? hcompany⟩, ⟨user, filled_of_nonBlank? huser⟩⟩
  · rintro ⟨⟨code, hc, hc'⟩, ⟨language, hl, hl'⟩, ⟨company, ho, ho'⟩, ⟨user, hu, hu'⟩⟩
    simp [submission?, hc, hl, ho, hu, nonBlank?_some hc', nonBlank?_some hl', nonBlank?_some ho',
      nonBlank?_some hu']

namespace Web

/-- What a request lacks that is refused for it. -/
inductive Request.Lacks (request : Request) : Problem → Prop
  | fields {draft : Draft} (route : route? request = some .submit)
      (body : draft? request = some draft) (unfilled : ¬ draft.Filled) :
      Lacks request .missingFields
  | user {query : List (String × String)} {userId limitText : Option String}
      (route : route? request = some (.listing query))
      (user : formValue? query "userId" = some userId)
      (blank : ∀ given ∈ userId, Text.isBlank given = true)
      (limit : formValue? query "limit" = some limitText) : Lacks request .missingUser

namespace Exchange

/-- What a request fails for. -/
inductive Fails (exchange : Exchange) (archive : Archive) : Problem → Prop
  | lacks {problem : Problem} (h : exchange.request.Lacks problem) : Fails exchange archive problem
  | unknown {id : String} (looks : exchange.Looks id)
      (holds : Archive.holdsTexts [id] = true) (absent : ∀ row ∈ archive.analyses, row.id ≠ id) :
      Fails exchange archive .notFound
  | unsaved {submission : Submission} (sent : exchange.submission? = some submission)
      (unreachable : exchange.reachable = false) : Fails exchange archive .saveFailed
  | unread {id : String} (route : route? exchange.request = some (.lookup id))
      (unreachable : exchange.reachable = false) : Fails exchange archive .lookupFailed
  | unlisted {query : List (String × String)} {userId : String} {limitText : Option String}
      (route : route? exchange.request = some (.listing query))
      (user : formValue? query "userId" = some (some userId))
      (filled : Text.isBlank userId = false)
      (limit : formValue? query "limit" = some limitText)
      (unreachable : exchange.reachable = false) : Fails exchange archive .listFailed
  | unranked {query : List (String × String)} {limitText : Option String}
      (route : route? exchange.request = some (.ranking query))
      (limit : formValue? query "limit" = some limitText)
      (unreachable : exchange.reachable = false) : Fails exchange archive .leaderboardFailed
  | userRefused {submission : Submission} {error : ArchiveError}
      (sent : exchange.submission? = some submission) (reachable : exchange.reachable = true)
      (refused : (exchange.upon archive).addUser submission.userId = .error error) :
      Fails exchange archive .saveFailed
  | analysisRefused {submission : Submission} {db : Database} {error : ArchiveError}
      (sent : exchange.submission? = some submission) (reachable : exchange.reachable = true)
      (added : (exchange.upon archive).addUser submission.userId = .ok db)
      (refused : db.insertAnalysis (exchange.row submission) = .error error) :
      Fails exchange archive .saveFailed

variable {exchange : Exchange} {archive : Archive} {problem : Problem} {submission : Submission}

theorem route_of_submission? (h : exchange.submission? = some submission) :
    route? exchange.request = some .submit ∧
      ∃ draft, draft? exchange.request = some draft ∧ draft.submission? = some submission := by
  unfold submission? at h
  split at h
  · next hroute => exact ⟨hroute, Option.bind_eq_some_iff.1 h⟩
  · cases h

/-- Requests that are answered with an error leave no trace exactly where no count overflows. -/
theorem after_eq_iff (exchange : Exchange) (archive : Archive) :
    ((exchange.handled archive).response.status ≠ 200 → exchange.after archive = archive) ↔
      ∀ submission, exchange.Takes archive submission →
        ¬ exchange.Overflows archive submission.userId := by
  constructor
  · intro h submission ht ho
    obtain ⟨hresponse, -⟩ := ht.stored_of_overflows ho
    have hanalyses := ht.analyses_after
    rw [h (by rw [hresponse]; decide)] at hanalyses
    exact absurd (congrArg List.length hanalyses) (by simp)
  · intro h hstatus
    obtain he | ⟨submission, ht, -⟩ := exchange.after_cases archive
    · exact he
    · rw [(ht.stores (h submission ht)).response] at hstatus
      exact absurd rfl hstatus

theorem response_of_lacks (archive : Archive) (h : exchange.request.Lacks problem) :
    (exchange.handled archive).response = problem.response := by
  cases h with
  | @fields draft route body unfilled =>
    have hnone : draft.submission? = none := by
      by_contra hs
      exact unfilled (Draft.exists_submission_iff.1 (Option.ne_none_iff_exists'.1 hs))
    unfold handled handle
    simp only [route, handleSubmission, body, hnone]
  | @user query userId limitText route user blank limit =>
    have hnone : nonBlank? userId = none :=
      Option.filter_eq_none_iff.2 fun given hg => by simp [blank given hg]
    unfold handled handle
    simp only [route, userQuery, user, limit, hnone]

theorem database?_of_unreachable (h : exchange.reachable = false) (archive : Archive) :
    exchange.database? archive = none := by
  simp [database?, h]

theorem addAnalysis_of_refused {error : ArchiveError}
    (h : (exchange.upon archive).addUser submission.userId = .error error) :
    (exchange.upon archive).addAnalysis exchange.stamp (exchange.fresh submission) =
      .error error := by
  have hu : (exchange.fresh submission).userId = submission.userId := rfl
  simp only [Database.addAnalysis, hu, h]
  rfl

theorem addAnalysis_of_added {db : Database} {error : ArchiveError}
    (hadd : (exchange.upon archive).addUser submission.userId = .ok db)
    (h : db.insertAnalysis (exchange.row submission) = .error error) :
    (exchange.upon archive).addAnalysis exchange.stamp (exchange.fresh submission) =
      .error error := by
  have hu : (exchange.fresh submission).userId = submission.userId := rfl
  have hrow : (exchange.fresh submission).row exchange.stamp = exchange.row submission := rfl
  simp only [Database.addAnalysis, hu, hadd, hrow, bind, Except.bind, h]

theorem response_of_addAnalysis {error : ArchiveError} (hs : exchange.submission? = some submission)
    (hr : exchange.reachable = true)
    (h : (exchange.upon archive).addAnalysis exchange.stamp (exchange.fresh submission) =
      .error error) :
    (exchange.handled archive).response = Problem.saveFailed.response := by
  rw [handled_of_submission archive hs hr, save_of_error h]

/-- Each of the failures is answered with its own error. -/
theorem Fails.response (h : exchange.Fails archive problem) :
    (exchange.handled archive).response = problem.response := by
  cases h with
  | lacks h => exact response_of_lacks archive h
  | unknown looks holds absent => exact looks.response_of_absent absent holds
  | unsaved sent unreachable =>
    rw [handled_eq_submit archive sent, database?_of_unreachable unreachable]
    rfl
  | unread route unreachable =>
    unfold handled handle
    simp only [route, database?_of_unreachable unreachable]
    rfl
  | unlisted route user filled limit unreachable =>
    unfold handled handle
    simp only [route, userQuery, user, limit, nonBlank?_some filled,
      database?_of_unreachable unreachable]
    rfl
  | unranked route limit unreachable =>
    unfold handled handle
    simp only [route, rankingQuery, limit, database?_of_unreachable unreachable]
    rfl
  | userRefused sent reachable refused =>
    exact response_of_addAnalysis sent reachable (addAnalysis_of_refused refused)
  | analysisRefused sent reachable added refused =>
    exact response_of_addAnalysis sent reachable (addAnalysis_of_added added refused)

/-- None of the failures is that of a submission that is taken. -/
theorem Fails.not_takes (h : exchange.Fails archive problem) (submission : Submission) :
    ¬ exchange.Takes archive submission := by
  intro ht
  obtain ⟨hroute, draft, hdraft, hsubmission⟩ := route_of_submission? ht.sent
  have hadd := addAnalysis_of_takes ht
  cases h with
  | lacks h =>
    cases h with
    | fields route body unfilled =>
      rw [body] at hdraft
      cases hdraft
      exact unfilled (Draft.exists_submission_iff.1 ⟨submission, hsubmission⟩)
    | user route => exact nomatch route.symm.trans hroute
  | unknown looks => exact nomatch looks.route.symm.trans hroute
  | unsaved _ unreachable => exact nomatch unreachable.symm.trans ht.reachable
  | unread route | unlisted route | unranked route => exact nomatch route.symm.trans hroute
  | userRefused sent reachable refused =>
    cases sent.symm.trans ht.sent
    rw [addAnalysis_of_refused refused] at hadd
    cases hadd
  | analysisRefused sent reachable added refused =>
    cases sent.symm.trans ht.sent
    rw [addAnalysis_of_added added refused] at hadd
    cases hadd

theorem Fails.after_eq (h : exchange.Fails archive problem) : exchange.after archive = archive := by
  obtain he | ⟨submission, ht, -⟩ := exchange.after_cases archive
  · exact he
  · exact absurd ht (h.not_takes submission)

/-- A submission that is stored and whose count is refused is answered with success, and all that it
changes is the analysis and its user. -/
theorem stores_of_uncounted {row : AnalysisRow} {db : Database} {error : ArchiveError}
    (hs : exchange.submission? = some submission) (hr : exchange.reachable = true)
    (hadd : (exchange.upon archive).addAnalysis exchange.stamp (exchange.fresh submission) =
      .ok (row, db))
    (hcount : db.countAnalysis exchange.build exchange.stamp row = .error (.refused error)) :
    exchange.Stores archive submission ∧
      exchange.after archive = archive.stored (exchange.row submission) := by
  obtain ⟨hu, hi, hidx, ha, rfl, rfl⟩ := Database.addAnalysis_eq_ok_iff.1 hadd
  have ht : exchange.Takes archive submission := ⟨hs, hr, hu, hi, hidx, ha⟩
  refine ⟨ht.stores fun ho => ?_, ?_⟩
  · have hoverflow := (countAnalysis_eq_overflow_iff ha).2 ho
    exact nomatch hoverflow.symm.trans hcount
  · unfold after
    rw [handled_of_submission archive hs hr, database_save_of_ok hadd, counted, hcount]
    rfl

/-- A request that is answered with an error leaves no trace exactly where no count overflows. Each
of the failures leaves none, a request that lacks something is refused whether or not the database
can be reached, and a submission whose count is refused is stored all the same. -/
theorem traceless_iff_fits (exchange : Exchange) (archive : Archive) :
    (((exchange.handled archive).response.status ≠ 200 → exchange.after archive = archive) ↔
      ∀ submission, exchange.Takes archive submission →
        ¬ exchange.Overflows archive submission.userId) ∧
    (∀ problem, exchange.Fails archive problem →
      (exchange.handled archive).response = problem.response ∧ 400 ≤ problem.status ∧
        exchange.after archive = archive) ∧
    (∀ problem, exchange.request.Lacks problem → problem.status = 400 ∧
      ∀ (reachable : Bool) (broken : Statement → Bool),
        (handled { exchange with reachable := reachable, broken := broken } archive).response =
          problem.response) ∧
    ∀ (submission : Submission) (row : AnalysisRow) (db : Database) (error : ArchiveError),
      exchange.submission? = some submission → exchange.reachable = true →
      (exchange.upon archive).addAnalysis exchange.stamp (exchange.fresh submission) =
        .ok (row, db) →
      db.countAnalysis exchange.build exchange.stamp row = .error (.refused error) →
      exchange.Stores archive submission ∧
        submission.userId ∈ (exchange.after archive).users.map (·.id) ∧
        exchange.after archive = archive.stored (exchange.row submission) ∧
        (exchange.after archive).progress = archive.progress := by
  refine ⟨exchange.after_eq_iff archive, ?_, ?_, ?_⟩
  · intro problem h
    exact ⟨h.response, by cases problem <;> decide, h.after_eq⟩
  · intro problem h
    exact ⟨by cases h <;> rfl, fun reachable broken =>
      @response_of_lacks { exchange with reachable, broken } problem archive h⟩
  · intro submission row db error hs hr hadd hcount
    obtain ⟨hstores, hafter⟩ := stores_of_uncounted hs hr hadd hcount
    refine ⟨hstores, ?_, hafter, ?_⟩
    · rw [hafter, Archive.users_stored, Archive.mem_users_withUser]
      exact .inl rfl
    · rw [hafter, Archive.progress_stored]

/-- A submission whose statements of this kind fail. -/
def hindered (statement : Statement) : Exchange :=
  { trial none with broken := fun other => other == statement }

theorem traceless_iff_fits_hindered :
    (((hindered .insertAnalysis).handled .empty).response = Problem.saveFailed.response ∧
      (hindered .insertAnalysis).after .empty = .empty) ∧
      ∃ submission, (hindered .readProgress).Stores .empty submission ∧
        ((hindered .readProgress).after .empty).progress = [] := by
  obtain ⟨submission, ht, -⟩ := takes_trial
  constructor
  · -- the user is added and the analysis is not
    have hadded : ((hindered .insertAnalysis).upon .empty).addUser submission.userId =
        .ok ((hindered .insertAnalysis).upon (Archive.empty.withUser submission.userId)) := by
      refine Database.map_eq_ok_iff.2 ⟨_, Database.run_eq_ok_iff.2 ⟨rfl,
        Archive.addUser_eq_ok_iff.2 ⟨?_, rfl⟩⟩, rfl⟩
      exact ht.admits.holds (List.mem_cons_of_mem _ List.mem_cons_self)
    have hrefused :
        ((hindered .insertAnalysis).upon (Archive.empty.withUser submission.userId)).insertAnalysis
          ((hindered .insertAnalysis).row submission) = .error .refused := rfl
    have hfails : (hindered .insertAnalysis).Fails .empty .saveFailed :=
      .analysisRefused ht.sent rfl hadded hrefused
    obtain ⟨hresponse, -, hafter⟩ :=
      (traceless_iff_fits (hindered .insertAnalysis) .empty).2.1 _ hfails
    exact ⟨hresponse, hafter⟩
  · have hadd : ((hindered .readProgress).upon .empty).addAnalysis
        (hindered .readProgress).stamp ((hindered .readProgress).fresh submission) = .ok (_, _) :=
      Database.addAnalysis_eq_ok_iff.2 ⟨rfl, rfl, rfl, ht.admits, rfl, rfl⟩
    obtain ⟨hstores, -, -, hprogress⟩ :=
      (traceless_iff_fits (hindered .readProgress) .empty).2.2.2 submission _ _ .refused ht.sent
        rfl hadd rfl
    exact ⟨submission, hstores, hprogress⟩

/-- A submission to a debug build. -/
def debugged : Exchange := { trial none with build := .debug }

/-- An archive with a user whose count of analyses is the greatest that it can hold. -/
def brimming : Archive where
  users := [⟨"ada", "ada@example.com", none⟩]
  analyses := []
  progress := [⟨"p", "ada", ⟨Int32.maxValue, .finite false 0, 0, some "python", ["google"]⟩⟩]

/-- A submission may be answered with an error and stored: counting one analysis more than the
greatest count overflows, which ends the request. -/
theorem traced_of_overflow : route? debugged.request = some .submit ∧
    (debugged.handled brimming).response.status = 500 ∧
    (debugged.after brimming).analyses.length = 1 ∧ debugged.after brimming ≠ brimming := by
  have hposts := posts_trial none
  have hp : debugged.Posts _ :=
    ⟨hposts.route, hposts.body, hposts.filled, hposts.texts, hposts.user⟩
  have hr : debugged.Stamped brimming :=
    ⟨(ready_trial none).id, rfl, (ready_trial none).instant⟩
  obtain ⟨submission, ht, hg⟩ := hp.exists_takes hr rfl rfl rfl rfl
  have hada : submission.userId = "ada" := (Option.some.inj hg.user).symm
  have hover : debugged.Overflows brimming submission.userId := by
    rw [hada]
    exact ⟨rfl, rfl, by decide⟩
  have hlength : (debugged.after brimming).analyses.length = 1 := by
    rw [ht.analyses_after]
    rfl
  refine ⟨hp.route, ?_, hlength, fun he => ?_⟩
  · rw [(ht.stored_of_overflows hover).1]
    rfl
  · rw [he] at hlength
    cases hlength

end Exchange

end Web

end Appraisal
