import Appraisal.Proofs.Exchange
import Appraisal.Proofs.Leniency
import Appraisal.Proofs.Wire
import Mathlib.Data.List.ReduceOption

/-!
# When a submission is stored

A submission whose own texts can be held is stored exactly when the two complexities of its report
can be held too (`stores_iff_storable`): they are the only texts of a report with a column of their
own, and a reply of a model may put the character with the number zero there. The rules' own
reports are always stored. Otherwise the answer is an error and nothing is kept
(`refused_of_spoiling`). What is stored is told to the client (`Takes.stores`), unless counting it
overflows (`Takes.stored_of_overflows`).
-/

namespace Appraisal

namespace Text

/-- No letter has a lower-case form with the number zero. -/
theorem forms_pos : (lowercaseRuns.all fun run => Nat.blt 0 run.2.2.2) = true := by
  decide +kernel

theorem nul_mem_lowerPiece_iff {before after : List Char} {c : Char} :
    '\x00' ∈ lowerPiece before c after ↔ c = '\x00' := by
  constructor
  · intro h
    unfold lowerPiece lowerSigma lowerChar at h
    split_ifs at h
    · simp at h
    · simp at h
    · simp at h
    · cases hf : lowercaseRuns.find? (runHolds c.toNat) with
      | none =>
        rw [hf] at h
        exact (List.mem_singleton.1 h).symm
      | some run =>
        -- the form of a letter in a run has the number of one of the run's forms, none of them zero
        rw [hf] at h
        have hr := List.mem_of_find?_eq_some hf
        have hpos := List.all_eq_true.1 forms_pos run hr
        rw [Nat.blt_eq] at hpos
        have hform := toNat_form hr (List.find?_some hf)
        rw [← List.mem_singleton.1 h] at hform
        have hzero : ('\x00' : Char).toNat = 0 := rfl
        omega
  · rintro rfl
    have hkept : lowerChar '\x00' = ['\x00'] := by decide +kernel
    simp [lowerPiece, hkept]

theorem nul_mem_lowerFrom_iff : ∀ {before text : List Char},
    '\x00' ∈ lowerFrom before text ↔ '\x00' ∈ text
  | _, [] => by simp [lowerFrom]
  | before, c :: after => by
    rw [lowerFrom_cons, List.mem_append, nul_mem_lowerPiece_iff, nul_mem_lowerFrom_iff,
      List.mem_cons, eq_comm]

theorem nul_mem_dropWhile_iff : ∀ {text : List Char},
    '\x00' ∈ text.dropWhile isSpace ↔ '\x00' ∈ text
  | [] => Iff.rfl
  | c :: text => by
    cases hc : isSpace c with
    | false => rw [List.dropWhile_cons_of_neg (by simp [hc])]
    | true =>
      have hne : '\x00' ≠ c := by
        rintro rfl
        cases hc
      rw [List.dropWhile_cons_of_pos hc, nul_mem_dropWhile_iff, List.mem_cons, or_iff_right hne]

/-- Trimming keeps the character with the number zero, which is no white space. -/
theorem nul_mem_trim_iff {text : List Char} : '\x00' ∈ trim text ↔ '\x00' ∈ text := by
  rw [trim, trimEnd, List.mem_reverse, nul_mem_dropWhile_iff, List.mem_reverse, trimStart,
    nul_mem_dropWhile_iff]

theorem nul_notMem_of_isBlank {text : String} (h : isBlank text = true) :
    '\x00' ∉ text.toList := by
  intro hc
  have hs := List.all_eq_true.1 h _ hc
  cases hs

end Text

section Texts

open Archive (holdsTexts)

theorem Archive.holdsTexts_iff {texts : List String} :
    holdsTexts texts = true ↔ ∀ text ∈ texts, '\x00' ∉ text.toList := by
  simp only [holdsTexts, List.all_eq_true, bne_iff_ne]
  constructor
  · intro h text ht hc
    exact h text ht _ hc rfl
  · intro h text ht c hc he
    rw [he] at hc
    exact h text ht hc

theorem Language.nul_mem_tag_parse_iff {name : String} :
    '\x00' ∈ (parse name).tag.toList ↔ '\x00' ∈ name.toList := by
  rw [parse, tag_ofTag, Text.normalName, Text.trimmed, Text.lowered, String.toList_ofList,
    String.toList_ofList, Text.lower, Text.nul_mem_lowerFrom_iff, Text.nul_mem_trim_iff]

theorem Growth.nul_notMem_label (growth : Growth) : '\x00' ∉ growth.label.toList := by
  cases growth <;> decide

/-- The texts of a report that have a column of their own. -/
def Report.columns (report : Report) : List String :=
  [report.timeComplexity, report.spaceComplexity]

theorem Request.holdsTexts_heuristicReport (request : Request) :
    holdsTexts request.heuristicReport.columns = true := by
  rw [Archive.holdsTexts_iff]
  simp only [Report.columns, List.forall_mem_cons, List.not_mem_nil, false_imp_iff, implies_true,
    and_true]
  exact ⟨Growth.nul_notMem_label _, Growth.nul_notMem_label _⟩

/-- The texts of a submission that have a column of their own. -/
def Submission.columns (submission : Submission) : List String :=
  [submission.userId, submission.title, submission.code, submission.language.tag,
    submission.targetCompany]

theorem nonBlank?_eq_some {given : Option String} {text : String}
    (h : nonBlank? given = some text) : given = some text :=
  (Option.filter_eq_some_iff.1 h).1

namespace Draft

/-- The texts that are there. -/
def texts (draft : Draft) : List String :=
  [draft.code, draft.language, draft.targetCompany, draft.userId, draft.title].reduceOption

theorem mem_texts_iff {draft : Draft} {text : String} :
    text ∈ draft.texts ↔
      some text ∈ [draft.code, draft.language, draft.targetCompany, draft.userId, draft.title] :=
  List.reduceOption_mem_iff

/-- Whether all that a submission needs is there and not blank. -/
structure Filled (draft : Draft) : Prop where
  code : ∃ text, draft.code = some text ∧ Text.isBlank text = false
  language : ∃ text, draft.language = some text ∧ Text.isBlank text = false
  company : ∃ text, draft.targetCompany = some text ∧ Text.isBlank text = false
  user : ∃ text, draft.userId = some text ∧ Text.isBlank text = false

/-- The title that is given in place of none has the tag of the language in it. -/
theorem nul_notMem_title_iff {title : Option String} {language : Language}
    (hl : '\x00' ∉ language.tag.toList) :
    '\x00' ∉ ((nonBlank? title).getD (defaultTitle language)).toList ↔
      ∀ text ∈ title, '\x00' ∉ text.toList := by
  cases hn : nonBlank? title with
  | none =>
    have hword : '\x00' ∉ " Analysis".toList := by decide
    rw [Option.getD_none, defaultTitle, String.toList_append, List.mem_append]
    refine iff_of_true (not_or.2 ⟨hl, hword⟩) ?_
    rintro text rfl
    have hb := Option.filter_eq_none_iff.1 hn text rfl
    exact Text.nul_notMem_of_isBlank (by simpa using hb)
  | some text =>
    have ht : title = some text := (Option.filter_eq_some_iff.1 hn).1
    simp [ht]

/-- A draft with all that it needs makes a submission. No text of that has the character with the
number zero unless a text of the draft has. -/
theorem Filled.submission {draft : Draft} (h : draft.Filled)
    (ht : holdsTexts draft.texts = true) :
    ∃ submission, draft.submission? = some submission ∧
      holdsTexts submission.columns = true := by
  obtain ⟨code, language, company, user, title⟩ := draft
  obtain ⟨⟨code, rfl, hb1⟩, ⟨language, rfl, hb2⟩, ⟨company, rfl, hb3⟩, ⟨user, rfl, hb4⟩⟩ := h
  rw [Archive.holdsTexts_iff] at ht
  have htag : '\x00' ∉ (Language.parse language).tag.toList := by
    rw [Language.nul_mem_tag_parse_iff]
    exact ht language (mem_texts_iff.2 (by simp))
  have hgiven : ∀ text ∈ title, '\x00' ∉ text.toList := fun text hm =>
    ht text (mem_texts_iff.2 (by simp [Option.mem_def.1 hm]))
  have htitle := (nul_notMem_title_iff htag).2 hgiven
  refine ⟨⟨code, .parse language, company, user,
    (nonBlank? title).getD (defaultTitle (.parse language))⟩, ?_, ?_⟩
  · simp only [submission?, nonBlank?_some hb1, nonBlank?_some hb2, nonBlank?_some hb3,
      nonBlank?_some hb4, Json.present_bind, Option.pure_def]
  · rw [Archive.holdsTexts_iff]
    simp only [Submission.columns, List.forall_mem_cons, List.not_mem_nil, false_imp_iff,
      implies_true, and_true]
    exact ⟨ht user (mem_texts_iff.2 (by simp)), htitle,
      ht code (mem_texts_iff.2 (by simp)), htag,
      ht company (mem_texts_iff.2 (by simp))⟩

/-- Whether a submission has texts of a draft as they were given. -/
structure Gives (draft : Draft) (submission : Submission) : Prop where
  code : draft.code = some submission.code
  company : draft.targetCompany = some submission.targetCompany
  user : draft.userId = some submission.userId

theorem gives_of_submission? {draft : Draft} {submission : Submission}
    (h : draft.submission? = some submission) : draft.Gives submission := by
  obtain ⟨code, hcode, h⟩ := Option.bind_eq_some_iff.1 h
  obtain ⟨language, -, h⟩ := Option.bind_eq_some_iff.1 h
  obtain ⟨company, hcompany, h⟩ := Option.bind_eq_some_iff.1 h
  obtain ⟨user, huser, h⟩ := Option.bind_eq_some_iff.1 h
  cases h
  exact ⟨nonBlank?_eq_some hcode, nonBlank?_eq_some hcompany, nonBlank?_eq_some huser⟩

end Draft

end Texts

/-- The record of a stored analysis. -/
def FreshAnalysis.record (new : FreshAnalysis) (stamp : Stamp) : Record where
  id := stamp.analysisId
  userId := new.userId
  title := new.title
  code := new.code
  language := new.language
  targetCompany := new.targetCompany
  overallScore := .ofNat new.report.overallScore.toNat
  timeComplexity := new.report.timeComplexity
  spaceComplexity := new.report.spaceComplexity
  report := new.report
  fileUrl := none
  createdAt := stamp.now.text

/-- A row is read back as the record of what was stored. -/
theorem Record.ofRow?_row (new : FreshAnalysis) (stamp : Stamp) :
    ofRow? (new.row stamp) = some (new.record stamp) := by
  have hreport : (Json.parse? (new.row stamp).report.toList).bind Report.ofJson? =
      some new.report := by
    show (Json.parse? new.report.toJson.encode.toList).bind Report.ofJson? = _
    rw [Json.parse?_compact new.report.wellFormed_toJson, Option.bind_some, Report.ofJson?_toJson]
  simp only [ofRow?, hreport, Json.present_bind]
  rfl

namespace Web

namespace Exchange

/-- Whether a request posts a draft that has all that it needs, in texts that can be held, for a
user whose id is short enough. -/
structure Posts (exchange : Exchange) (draft : Draft) : Prop where
  route : route? exchange.request = some .submit
  body : draft? exchange.request = some draft
  filled : draft.Filled
  texts : Archive.holdsTexts draft.texts = true
  user : ∀ userId ∈ draft.userId, exchange.indexable userId = true

/-- Whether the id and the time of a new analysis can be stored. -/
structure Stamped (exchange : Exchange) (archive : Archive) : Prop where
  id : Archive.holdsTexts [exchange.stamp.analysisId] = true
  fresh : archive.hasAnalysis exchange.stamp.analysisId = false
  instant : Archive.holdsInstant exchange.stamp.now = true

/-- Whether the database works, a new analysis can be stored, and no count overflows. -/
structure Ready (exchange : Exchange) (archive : Archive) : Prop
    extends exchange.Stamped archive where
  reachable : exchange.reachable = true
  working : ∀ statement, exchange.broken statement = false
  room : ∀ userId, ¬ exchange.Overflows archive userId

/-- Whether a submission is stored and the answer tells so. -/
structure Stores (exchange : Exchange) (archive : Archive) (submission : Submission) : Prop where
  response : (exchange.handled archive).response =
    saved ((exchange.fresh submission).record exchange.stamp) (exchange.outcome submission).source
  row : Archive.kept (exchange.row submission) ∈ (exchange.after archive).analyses

variable {exchange : Exchange} {archive : Archive} {draft : Draft} {submission : Submission}

theorem Posts.exists_submission (hp : exchange.Posts draft) :
    ∃ submission, exchange.submission? = some submission ∧
      Archive.holdsTexts submission.columns = true ∧ draft.Gives submission := by
  obtain ⟨submission, hs, ht⟩ := hp.filled.submission hp.texts
  refine ⟨submission, ?_, ht, Draft.gives_of_submission? hs⟩
  rw [submission?, hp.route, hp.body]
  exact hs

theorem handled_eq_submit (archive : Archive) (hs : exchange.submission? = some submission) :
    exchange.handled archive =
      submit exchange.build exchange.model exchange.stamp (exchange.database? archive)
        submission := by
  unfold submission? at hs
  split at hs
  · next hroute =>
    obtain ⟨draft, hd, hs⟩ := Option.bind_eq_some_iff.1 hs
    unfold handled handle
    rw [hroute]
    simp only [handleSubmission, hd, hs]
  · cases hs

theorem handled_of_submission (archive : Archive) (hs : exchange.submission? = some submission)
    (hr : exchange.reachable = true) :
    exchange.handled archive =
      ⟨(save exchange.build (exchange.upon archive) exchange.stamp submission
          (exchange.outcome submission)).1,
        some (save exchange.build (exchange.upon archive) exchange.stamp submission
          (exchange.outcome submission)).2, (exchange.outcome submission).asked⟩ := by
  rw [handled_eq_submit archive hs, database?_of_reachable hr]
  rfl

/-- The row of a submission may be stored exactly when the texts of its own can be held, and the two
complexities of its report too. -/
theorem admits_iff (hr : exchange.Stamped archive) :
    archive.Admits (exchange.row submission) ↔
      Archive.holdsTexts submission.columns = true ∧
        Archive.holdsTexts (exchange.outcome submission).report.columns = true := by
  have hscore : (exchange.outcome submission).report.overallScore.toNat ≤ 100 :=
    (Request.consult_outcome exchange.model submission.request).2.1.score
  have htexts : Archive.holdsTexts [exchange.stamp.analysisId, submission.userId, submission.title,
      submission.code, submission.language.tag, submission.targetCompany,
      (exchange.outcome submission).report.timeComplexity,
      (exchange.outcome submission).report.spaceComplexity] = true ↔
      Archive.holdsTexts submission.columns = true ∧
        Archive.holdsTexts (exchange.outcome submission).report.columns = true := by
    show Archive.holdsTexts ([exchange.stamp.analysisId] ++ (submission.columns ++
      (exchange.outcome submission).report.columns)) = true ↔ _
    rw [Archive.holdsTexts_append, Archive.holdsTexts_append, hr.id, Bool.true_and,
      Bool.and_eq_true]
  rw [row, Archive.admits_row_iff]
  constructor
  · rintro ⟨h, -⟩
    exact htexts.1 h
  · intro h
    exact ⟨htexts.2 h, hr.instant, hr.fresh, hscore⟩

theorem addAnalysis_of_takes (h : exchange.Takes archive submission) :
    (exchange.upon archive).addAnalysis exchange.stamp (exchange.fresh submission) =
      .ok (exchange.row submission, exchange.upon (archive.stored (exchange.row submission))) :=
  Database.addAnalysis_eq_ok_iff.2
    ⟨h.insertUser, h.insertAnalysis, h.indexable, h.admits, rfl, rfl⟩

/-- A submission that is taken adds its row, whatever becomes of its count. -/
theorem Takes.analyses_after (h : exchange.Takes archive submission) :
    (exchange.after archive).analyses =
      archive.analyses ++ [Archive.kept (exchange.row submission)] := by
  unfold after
  rw [handled_of_submission archive h.sent h.reachable,
    database_save_of_ok (addAnalysis_of_takes h)]
  exact analyses_counted _ _ _ _

theorem Takes.hasAnalysis_after (h : exchange.Takes archive submission) (id : String) :
    (exchange.after archive).hasAnalysis id =
      (archive.hasAnalysis id || exchange.stamp.analysisId == id) := by
  have hkept : (Archive.kept (exchange.row submission)).id = exchange.stamp.analysisId := rfl
  rw [Archive.hasAnalysis, h.analyses_after, List.any_append, List.any_cons, List.any_nil,
    Bool.or_false, hkept, Archive.hasAnalysis]

theorem Takes.rowsOf_after (h : exchange.Takes archive submission) :
    (exchange.after archive).rowsOf submission.userId =
      archive.rowsOf submission.userId ++ [Archive.kept (exchange.row submission)] := by
  have hkept : (Archive.kept (exchange.row submission)).userId = submission.userId := rfl
  rw [Archive.rowsOf, h.analyses_after, List.filter_append,
    List.filter_cons_of_pos (by simp [hkept]), List.filter_nil, Archive.rowsOf]

/-- A submission that is taken is answered with its record, unless its count overflows. -/
theorem Takes.stores (h : exchange.Takes archive submission)
    (ho : ¬ exchange.Overflows archive submission.userId) :
    exchange.Stores archive submission := by
  have hcount : (exchange.upon (archive.stored (exchange.row submission))).countAnalysis
      exchange.build exchange.stamp (exchange.row submission) ≠ .error .overflow :=
    mt (countAnalysis_eq_overflow_iff h.admits).1 ho
  have hrow : Record.ofRow? (exchange.row submission) = _ :=
    Record.ofRow?_row (exchange.fresh submission) exchange.stamp
  refine ⟨?_, h.analyses_after ▸ List.mem_append_right _ List.mem_cons_self⟩
  rw [handled_of_submission archive h.sent h.reachable, save_of_ok (addAnalysis_of_takes h) hcount,
    recorded, hrow]

/-- A submission whose count overflows is answered with an error, and its row is stored. -/
theorem Takes.stored_of_overflows (h : exchange.Takes archive submission)
    (ho : exchange.Overflows archive submission.userId) :
    (exchange.handled archive).response = Problem.saveFailed.response ∧
      exchange.after archive = archive.stored (exchange.row submission) := by
  have hcount := (countAnalysis_eq_overflow_iff h.admits).2 ho
  have hsave := save_of_overflow (addAnalysis_of_takes h) hcount
  unfold after
  rw [handled_of_submission archive h.sent h.reachable, hsave]
  exact ⟨rfl, rfl⟩

/-- Without a model, what is posted is taken: the rules' own reports can be held. -/
theorem Posts.exists_takes (hp : exchange.Posts draft) (hr : exchange.Stamped archive)
    (hreach : exchange.reachable = true) (hu : exchange.broken .insertUser = false)
    (hi : exchange.broken .insertAnalysis = false) (hmodel : exchange.model = none) :
    ∃ submission, exchange.Takes archive submission ∧ draft.Gives submission := by
  obtain ⟨submission, hs, ht, hg⟩ := hp.exists_submission
  have hreport : (exchange.outcome submission).report = submission.request.heuristicReport := by
    rw [outcome, hmodel]
    rfl
  refine ⟨submission, ⟨hs, hreach, hu, hi, hp.user _ hg.user, (admits_iff hr).2 ⟨ht, ?_⟩⟩, hg⟩
  rw [hreport]
  exact Request.holdsTexts_heuristicReport _

theorem stores_of_admits (hs : exchange.submission? = some submission)
    (hr : exchange.Ready archive) (hidx : exchange.indexable submission.userId = true)
    (ha : archive.Admits (exchange.row submission)) : exchange.Stores archive submission :=
  Takes.stores ⟨hs, hr.reachable, hr.working .insertUser, hr.working .insertAnalysis, hidx, ha⟩
    (hr.room _)

/-- A submission that is not taken is answered with an error, and the archive is what it was. -/
theorem refused_of_not_takes (hs : exchange.submission? = some submission)
    (hr : exchange.reachable = true) (ht : ¬ exchange.Takes archive submission) :
    (exchange.handled archive).response = Problem.saveFailed.response ∧
      exchange.after archive = archive := by
  have hh := handled_of_submission archive hs hr
  cases hadd : (exchange.upon archive).addAnalysis exchange.stamp (exchange.fresh submission) with
  | error e =>
    rw [save_of_error hadd] at hh
    unfold after
    rw [hh]
    exact ⟨rfl, rfl⟩
  | ok stored =>
    obtain ⟨stored, db⟩ := stored
    obtain ⟨hu, hi, hidx, ha, -, -⟩ := Database.addAnalysis_eq_ok_iff.1 hadd
    exact absurd ⟨hs, hr, hu, hi, hidx, ha⟩ ht

/-- A submission in texts that can be held is stored exactly when the two complexities of its report
can be held, and they can if the rules gave the report. Otherwise the answer is an error and the
archive is what it was. -/
theorem stores_iff_storable (hp : exchange.Posts draft) (hr : exchange.Ready archive) :
    ∃ submission, exchange.submission? = some submission ∧
      (exchange.Stores archive submission ↔
        Archive.holdsTexts (exchange.outcome submission).report.columns = true) ∧
      (¬ exchange.Stores archive submission →
        (exchange.handled archive).response = Problem.saveFailed.response ∧
          exchange.after archive = archive) ∧
      ((exchange.outcome submission).source = .heuristic →
        exchange.Stores archive submission) := by
  obtain ⟨submission, hs, ht, hg⟩ := hp.exists_submission
  have hstores : exchange.Stores archive submission ↔
      archive.Admits (exchange.row submission) := by
    refine ⟨fun h => ?_, stores_of_admits hs hr (hp.user _ hg.user)⟩
    by_contra ha
    have hstatus := congrArg Response.status h.response
    rw [(refused_of_not_takes hs hr.reachable fun htakes => ha htakes.admits).1] at hstatus
    cases hstatus
  refine ⟨submission, hs, hstores.trans ((admits_iff hr.toStamped).trans (and_iff_right ht)), ?_,
    ?_⟩
  · intro h
    rw [hstores] at h
    exact refused_of_not_takes hs hr.reachable fun htakes => h htakes.admits
  · intro h
    rw [hstores, admits_iff hr.toStamped, and_iff_right ht]
    rcases (Request.consult_outcome exchange.model submission.request).1 with
      ⟨fields, -, hai, -⟩ | ⟨-, -, hreport⟩
    · rw [outcome, hai] at h
      cases h
    · rw [outcome, hreport]
      exact Request.holdsTexts_heuristicReport _

/-- What the first submission to a new server is stored with. -/
def firstStamp : Stamp := ⟨"a", "progress of a", ⟨0, 0⟩⟩

/-- A submission to a new server, with a model or without one. -/
def trial (model : Option Model) : Exchange where
  request := posted (Posting.toJson ⟨"return 1", "python", "google", "ada", none⟩).encode
  model := model
  stamp := firstStamp

theorem posts_trial (model : Option Model) :
    (trial model).Posts ⟨some "return 1", some "python", some "google", some "ada", none⟩ where
  route := route?_posted _
  body := draft?_posted (by decide +kernel)
  filled := ⟨⟨_, rfl, by decide⟩, ⟨_, rfl, by decide⟩, ⟨_, rfl, by decide⟩, ⟨_, rfl, by decide⟩⟩
  texts := by decide
  user _ _ := rfl

theorem ready_trial (model : Option Model) : (trial model).Ready .empty where
  reachable := rfl
  working _ := rfl
  id := show Archive.holdsTexts ["a"] = true by decide
  fresh := rfl
  instant := show Archive.holdsInstant ⟨0, 0⟩ = true by decide
  room _ h := nomatch h.build

theorem stores_iff_storable_trial :
    ∃ submission, (trial none).submission? = some submission ∧
      (trial none).Stores .empty submission := by
  obtain ⟨submission, hs, -, -, hh⟩ := stores_iff_storable (posts_trial none) (ready_trial none)
  exact ⟨submission, hs, hh rfl⟩

/-- A submission under other ids, without a model to ask. -/
def sample (id progressId : String) : Exchange :=
  { trial none with stamp := ⟨id, progressId, ⟨0, 0⟩⟩ }

theorem takes_sample {id progressId : String} {archive : Archive}
    (hid : Archive.holdsTexts [id] = true) (hfresh : archive.hasAnalysis id = false) :
    ∃ submission, (sample id progressId).Takes archive submission ∧ submission.userId = "ada" := by
  have hposts := posts_trial none
  have hp : (sample id progressId).Posts _ :=
    ⟨hposts.route, hposts.body, hposts.filled, hposts.texts, hposts.user⟩
  have hr : (sample id progressId).Stamped archive :=
    ⟨hid, hfresh, (by decide : Archive.holdsInstant ⟨0, 0⟩ = true)⟩
  obtain ⟨submission, ht, hg⟩ := hp.exists_takes hr rfl rfl rfl rfl
  exact ⟨submission, ht, (Option.some.inj hg.user).symm⟩

/-- The fields of a reply that names a complexity with the character zero in it. -/
def spoiled : Reply.Fields := [Json.field "timeComplexity" (.text "O(\x00)")]

/-- A model that always gives this reply. -/
def spoiling : Model := fun _ => .ok (Json.encode (.object spoiled))

theorem answered_spoiling (request : Appraisal.Request) :
    request.Answered (some spoiling) spoiled := by
  have hwell : (Json.object spoiled).WellFormed :=
    Json.wellFormed_object (by simp [spoiled, Json.field])
  exact ⟨spoiling, _, rfl, rfl, Reply.body_of_object (Json.parse?_compact hwell), rfl⟩

/-- A reply of a model can keep a submission from being stored. -/
theorem refused_of_spoiling :
    (trial (some spoiling)).Posts
        ⟨some "return 1", some "python", some "google", some "ada", none⟩ ∧
      (trial (some spoiling)).Ready .empty ∧
      ((trial (some spoiling)).handled .empty).response.status = 500 ∧
      (trial (some spoiling)).after .empty = .empty := by
  have hp := posts_trial (some spoiling)
  have hr := ready_trial (some spoiling)
  obtain ⟨submission, hs, -, -⟩ := hp.exists_submission
  have ha : ¬ Archive.empty.Admits ((trial (some spoiling)).row submission) := by
    have hreport : (trial (some spoiling)).outcome submission =
        ⟨Reply.ofFields spoiled, .ai, [submission.request.messages]⟩ :=
      Request.consult_of_answered (answered_spoiling submission.request)
    have hcolumns : Archive.holdsTexts (Reply.ofFields spoiled).columns = false := by decide
    rw [admits_iff hr.toStamped, hreport, hcolumns]
    exact fun h => Bool.false_ne_true h.2
  obtain ⟨hresponse, hafter⟩ := refused_of_not_takes hs rfl fun ht => ha ht.admits
  refine ⟨hp, hr, ?_, hafter⟩
  rw [hresponse]
  rfl

end Exchange

end Web

end Appraisal
