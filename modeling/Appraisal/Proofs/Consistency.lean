import Appraisal.Proofs.Room
import Appraisal.Proofs.Storable

/-!
# The tables agree

After any run of requests whose analyses are counted, the three tables agree (`Consistent`): the
users are those who own an analysis, the progress of each sums up these analyses, and every row
repeats what its report says. One request keeps this (`consistent_after`), so a run does
(`consistent_run`). A count has 32 bits, so that a user is to have fewer than `2 ^ 31` submissions.
-/

namespace Appraisal

/-- Whether totals count these analyses and have the best of their scores. -/
structure Totals.Tally (totals : Totals) (rows : List AnalysisRow) : Prop where
  analyses : totals.analyses.toInt = rows.length
  best : (rows.map fun row => row.overallScore.toInt).max? = some totals.best

/-- Whether totals also have the language and the company of the latest of these analyses. -/
structure Totals.Summary (totals : Totals) (rows : List AnalysisRow) : Prop
    extends totals.Tally rows where
  language : totals.language = rows.getLast?.map (·.language)
  companies : totals.companies = (rows.getLast?.map (·.targetCompany)).toList

/-- Whether the columns of a row repeat what its report says. -/
structure AnalysisRow.Faithful (row : AnalysisRow) : Prop where
  nonneg : 0 ≤ row.overallScore.toInt
  le : row.overallScore.toInt ≤ 100
  report : ∃ report, (Json.parse? row.report.toList).bind Report.ofJson? = some report ∧
    (report.overallScore.toNat : Int) = row.overallScore.toInt ∧
    report.timeComplexity = row.timeComplexity ∧ report.spaceComplexity = row.spaceComplexity

/-- Whether the tables agree. -/
structure Archive.Consistent (archive : Archive) : Prop where
  users_nodup : (archive.users.map (·.id)).Nodup
  users_iff : ∀ id, id ∈ archive.users.map (·.id) ↔ ∃ row ∈ archive.analyses, row.userId = id
  progress_users : ∀ row ∈ archive.progress, row.userId ∈ archive.users.map (·.id)
  analyses_nodup : (archive.analyses.map (·.id)).Nodup
  progress_nodup : (archive.progress.map (·.userId)).Nodup
  summary : ∀ userId, archive.rowsOf userId ≠ [] →
    ∃ totals, archive.totalsOf userId = some totals ∧ totals.Summary (archive.rowsOf userId)
  faithful : ∀ row ∈ archive.analyses, row.Faithful

section Totals

theorem Totals.tally_first {row : AnalysisRow} (h : 0 ≤ row.overallScore.toInt)
    (language company : String) :
    (Totals.next none row.overallScore.toInt language company).Tally [row] := by
  refine ⟨@Totals.countOf_next none (by decide) _ language company, ?_⟩
  show some row.overallScore.toInt = some (max 0 row.overallScore.toInt)
  rw [Int.max_eq_right h]

theorem Totals.Tally.next {totals : Totals} {rows : List AnalysisRow} (h : totals.Tally rows)
    (hlt : totals.analyses.toInt < 2147483647) (row : AnalysisRow) (language company : String) :
    (Totals.next (some totals) row.overallScore.toInt language company).Tally
      (rows ++ [row]) := by
  constructor
  · have hnext := @Totals.analyses_next (some totals) hlt row.overallScore.toInt language company
    rw [hnext, Option.getD_some, h.analyses, List.length_append]
    rfl
  · obtain ⟨hmem, hle⟩ := List.max?_eq_some_iff.1 h.best
    rw [List.map_append, List.map_singleton, List.max?_eq_some_iff]
    show max totals.best row.overallScore.toInt ∈ _ ∧ _
    constructor
    · rcases Int.le_total row.overallScore.toInt totals.best with he | he
      · rw [Int.max_eq_left he]
        exact List.mem_append_left _ hmem
      · rw [Int.max_eq_right he]
        exact List.mem_append_right _ List.mem_cons_self
    · intro score hs
      show score ≤ max totals.best row.overallScore.toInt
      rcases List.mem_append.1 hs with hs | hs
      · exact Int.le_trans (hle score hs) (Int.le_max_left _ _)
      · rw [List.mem_singleton.1 hs]
        exact Int.le_max_right _ _

/-- One more analysis is summed up by the next totals. -/
theorem Totals.summary_next {previous : Option Totals} {rows : List AnalysisRow}
    (row : AnalysisRow) (h : 0 ≤ row.overallScore.toInt)
    (hlt : Totals.countOf previous < 2147483647) (hnone : previous = none → rows = [])
    (hsome : ∀ totals, previous = some totals → totals.Tally rows) :
    (Totals.next previous row.overallScore.toInt row.language row.targetCompany).Summary
      (rows ++ [row]) := by
  have htally : (Totals.next previous row.overallScore.toInt row.language
      row.targetCompany).Tally (rows ++ [row]) := by
    cases previous with
    | none =>
      rw [hnone rfl]
      exact Totals.tally_first h _ _
    | some totals => exact (hsome totals rfl).next hlt row _ _
  refine ⟨htally, ?_, ?_⟩ <;> simp [Totals.next]

end Totals

namespace Archive

section Taken

variable {archive : Archive} {stamp : Stamp} {new : FreshAnalysis}

theorem rowsOf_ne_nil_iff {userId : String} :
    archive.rowsOf userId ≠ [] ↔ ∃ row ∈ archive.analyses, row.userId = userId := by
  simp [rowsOf]

theorem totalsOf_eq_none_iff {userId : String} :
    archive.totalsOf userId = none ↔ userId ∉ archive.progress.map (·.userId) := by
  simp [totalsOf]

/-- The row of a report repeats what the report says. -/
theorem Admits.faithful (h : archive.Admits (new.row stamp)) : (kept (new.row stamp)).Faithful where
  nonneg := h.nonneg
  le := h.le
  report := by
    refine ⟨new.report, ?_, (toInt_overallScore_row new stamp).symm, rfl, rfl⟩
    show (Json.parse? new.report.toJson.encode.toList).bind Report.ofJson? = _
    rw [Json.parse?_compact new.report.wellFormed_toJson, Option.bind_some, Report.ofJson?_toJson]

/-- The archive with an analysis that is counted. -/
def taken (archive : Archive) (stamp : Stamp) (row : AnalysisRow) : Archive :=
  (archive.stored row).withProgress (Database.progressAfter stamp row
    (archive.progress.find? fun other => other.userId == row.userId))

theorem users_taken (archive : Archive) (stamp : Stamp) (row : AnalysisRow) :
    (archive.taken stamp row).users = (archive.withUser row.userId).users := rfl

theorem totalsOf_taken_self (archive : Archive) (stamp : Stamp) (row : AnalysisRow) :
    (archive.taken stamp row).totalsOf row.userId = some (Totals.next (archive.totalsOf row.userId)
      row.overallScore.toInt row.language row.targetCompany) :=
  totalsOf_withProgress_self _ (Database.progressAfter stamp row _)

theorem progress_userIds_taken (archive : Archive) (stamp : Stamp) (row : AnalysisRow) :
    (archive.taken stamp row).progress.map (·.userId) =
      if row.userId ∈ archive.progress.map (·.userId) then archive.progress.map (·.userId)
      else archive.progress.map (·.userId) ++ [row.userId] := by
  unfold taken withProgress
  rw [progress_stored]
  exact users_upsertProgress _ _

theorem Consistent.totalsOf_eq_none (h : archive.Consistent) {userId : String}
    (hn : archive.totalsOf userId = none) : archive.rowsOf userId = [] := by
  by_contra hne
  obtain ⟨totals, ht, -⟩ := h.summary userId hne
  rw [hn] at ht
  cases ht

theorem Consistent.tally (h : archive.Consistent) {userId : String} {totals : Totals}
    (ht : archive.totalsOf userId = some totals) : totals.Tally (archive.rowsOf userId) := by
  have hne : archive.rowsOf userId ≠ [] := by
    rw [rowsOf_ne_nil_iff, ← h.users_iff]
    have hmem : userId ∈ archive.progress.map (·.userId) := by
      by_contra hnot
      rw [totalsOf_eq_none_iff.2 hnot] at ht
      cases ht
    obtain ⟨row, hrow, rfl⟩ := List.mem_map.1 hmem
    exact h.progress_users row hrow
  obtain ⟨totals', ht', hs⟩ := h.summary userId hne
  rw [ht] at ht'
  cases ht'
  exact hs.toTally

theorem Consistent.summary_taken (h : archive.Consistent) (ha : archive.Admits (new.row stamp))
    (hlt : Totals.countOf (archive.totalsOf new.userId) < 2147483647) (userId : String)
    (hne : (archive.taken stamp (new.row stamp)).rowsOf userId ≠ []) :
    ∃ totals, (archive.taken stamp (new.row stamp)).totalsOf userId = some totals ∧
      totals.Summary ((archive.taken stamp (new.row stamp)).rowsOf userId) := by
  by_cases hu : (new.row stamp).userId = userId
  · subst hu
    refine ⟨_, totalsOf_taken_self archive stamp _, ?_⟩
    unfold taken
    rw [rowsOf_withProgress, rowsOf_stored_self]
    exact Totals.summary_next (kept (new.row stamp)) ha.nonneg hlt
      (fun hn => h.totalsOf_eq_none hn) (fun totals ht => h.tally ht)
  · unfold taken at hne ⊢
    rw [rowsOf_withProgress, rowsOf_stored_of_ne hu] at hne ⊢
    rw [totalsOf_withProgress_of_ne (Ne.symm hu), totalsOf_stored]
    exact h.summary userId hne

/-- Taking a submission keeps the tables in agreement. -/
theorem Consistent.taken (h : archive.Consistent) (ha : archive.Admits (new.row stamp))
    (hlt : Totals.countOf (archive.totalsOf new.userId) < 2147483647) :
    (archive.taken stamp (new.row stamp)).Consistent where
  users_nodup := by
    rw [users_taken]
    exact nodup_users_withUser h.users_nodup _
  users_iff := by
    intro id
    rw [users_taken, mem_users_withUser, h.users_iff]
    show _ ↔ ∃ row ∈ archive.analyses ++ [kept (new.row stamp)], row.userId = id
    constructor
    · rintro (rfl | ⟨row, hrow, hid⟩)
      · exact ⟨kept (new.row stamp), List.mem_append_right _ List.mem_cons_self, rfl⟩
      · exact ⟨row, List.mem_append_left _ hrow, hid⟩
    · rintro ⟨row, hrow, hid⟩
      rcases List.mem_append.1 hrow with hrow | hrow
      · exact .inr ⟨row, hrow, hid⟩
      · rw [List.mem_singleton.1 hrow] at hid
        exact .inl hid.symm
  progress_users := by
    intro row hrow
    have hid : row.userId ∈ (archive.taken stamp (new.row stamp)).progress.map (·.userId) :=
      List.mem_map_of_mem hrow
    have hold : ∀ id ∈ archive.progress.map (·.userId), id ∈ archive.users.map (·.id) := by
      intro id hid
      obtain ⟨other, ho, rfl⟩ := List.mem_map.1 hid
      exact h.progress_users other ho
    rw [progress_userIds_taken] at hid
    rw [users_taken, mem_users_withUser]
    split_ifs at hid
    · exact .inr (hold _ hid)
    · rcases List.mem_append.1 hid with hid | hid
      · exact .inr (hold _ hid)
      · exact .inl (List.mem_singleton.1 hid)
  analyses_nodup := nodup_analyses_stored h.analyses_nodup ha
  progress_nodup := by
    rw [progress_userIds_taken]
    split_ifs with hu
    · exact h.progress_nodup
    · rw [List.nodup_append]
      refine ⟨h.progress_nodup, by simp, ?_⟩
      intro id hid other ho he
      rw [he, List.mem_singleton.1 ho] at hid
      exact hu hid
  summary := h.summary_taken ha hlt
  faithful := by
    intro row hrow
    rcases List.mem_append.1 hrow with hrow | hrow
    · exact h.faithful row hrow
    · rw [List.mem_singleton.1 hrow]
      exact ha.faithful

theorem consistent_empty : Archive.empty.Consistent where
  users_nodup := List.nodup_nil
  users_iff := by simp [empty]
  progress_users := by simp [empty]
  analyses_nodup := List.nodup_nil
  progress_nodup := List.nodup_nil
  summary := by simp [empty, rowsOf]
  faithful := by simp [empty]

end Taken

end Archive

namespace Web.Exchange

/-- One request keeps the tables in agreement. -/
theorem consistent_after {exchange : Exchange} {exchanges : List Exchange} {archive : Archive}
    (hc : exchange.Counts) (hroom : Roomy archive (exchange :: exchanges))
    (hids : Unused archive (exchange :: exchanges)) (h : archive.Consistent) :
    (exchange.after archive).Consistent := by
  obtain he | ⟨submission, ht, he⟩ := exchange.after_cases archive
  · rw [he]
    exact h
  · rw [he, counted_stored hc ht.admits (hroom.not_overflows ht.sent) (hids.hasRoomFor _ _)]
    exact h.taken ht.admits (hroom.lt ht.sent)

theorem consistent_foldl : ∀ (exchanges : List Exchange) {archive : Archive},
    (∀ exchange ∈ exchanges, exchange.Counts) → Roomy archive exchanges →
    Unused archive exchanges → archive.Consistent → (run archive exchanges).Consistent
  | [], _, _, _, _, h => h
  | exchange :: exchanges, _, hc, hroom, hids, h =>
    consistent_foldl exchanges (fun other ho => hc other (List.mem_cons_of_mem _ ho)) hroom.after
      hids.after (consistent_after (hc exchange List.mem_cons_self) hroom hids h)

/-- The tables agree after any run of requests on the empty archive, if no statement fails that
counts an analysis, every user has fewer submissions than a count can hold, and the ids for new
progress are all different. -/
theorem consistent_run {exchanges : List Exchange}
    (h : ∀ exchange ∈ exchanges, exchange.Counts)
    (hcount : ∀ userId, submissions exchanges userId < 2 ^ 31)
    (hids : (exchanges.map fun exchange => exchange.stamp.progressId).Nodup) :
    (run .empty exchanges).Consistent :=
  consistent_foldl exchanges h (roomy_empty hcount) (unused_empty hids) Archive.consistent_empty

section Samples

/-- Three submissions, the last of them under an id that is taken by then. -/
def samples : List Exchange := [sample "a" "p", sample "b" "q", sample "a" "r"]

/-- The first two samples are stored, and the third is refused. -/
theorem length_run_samples : (run .empty samples).analyses.length = 2 ∧
    ((run .empty samples).rowsOf "ada").length = 2 := by
  obtain ⟨first, hfirst, hada⟩ := @takes_sample "a" "p" .empty (by decide) rfl
  have hnew : ((sample "a" "p").after .empty).hasAnalysis "b" = false := by
    rw [hfirst.hasAnalysis_after]
    decide
  obtain ⟨second, hsecond, hada'⟩ := @takes_sample "b" "q" _ (by decide) hnew
  have hthird : run .empty samples = (sample "b" "q").after ((sample "a" "p").after .empty) := by
    rw [run, samples, List.foldl_cons, List.foldl_cons, List.foldl_cons, List.foldl_nil]
    obtain he | ⟨submission, ht, -⟩ := (sample "a" "r").after_cases
      ((sample "b" "q").after ((sample "a" "p").after .empty))
    · exact he
    · have htaken : ((sample "b" "q").after ((sample "a" "p").after .empty)).hasAnalysis "a" =
        false := ht.admits.fresh
      rw [hsecond.hasAnalysis_after, hfirst.hasAnalysis_after] at htaken
      exact absurd htaken (by decide)
  rw [hthird, hsecond.analyses_after, hfirst.analyses_after]
  refine ⟨rfl, ?_⟩
  rw [← hada', hsecond.rowsOf_after, hada', ← hada, hfirst.rowsOf_after]
  rfl

theorem consistent_run_sample :
    (∀ exchange ∈ samples, exchange.Counts) ∧
      (∀ userId, submissions samples userId < 2 ^ 31) ∧
      (samples.map fun exchange => exchange.stamp.progressId).Nodup ∧
      (run .empty samples).Consistent ∧ (run .empty samples).analyses.length = 2 ∧
      ∃ totals, (run .empty samples).totalsOf "ada" = some totals ∧ totals.analyses = 2 := by
  have hc : ∀ exchange ∈ samples, exchange.Counts := by
    intro exchange he
    simp only [samples, List.mem_cons, List.not_mem_nil, or_false] at he
    rcases he with rfl | rfl | rfl <;> exact ⟨rfl, rfl, by decide⟩
  have hcount : ∀ userId, submissions samples userId < 2 ^ 31 := fun userId =>
    Nat.lt_of_le_of_lt List.countP_le_length (by decide)
  have hids : (samples.map fun exchange => exchange.stamp.progressId).Nodup := by decide
  have h := consistent_run hc hcount hids
  obtain ⟨hlength, hrows⟩ := length_run_samples
  obtain ⟨totals, htotals, hsummary⟩ := h.summary "ada" (List.ne_nil_of_length_pos (by omega))
  refine ⟨hc, hcount, hids, h, hlength, totals, htotals, ?_⟩
  rw [← Int32.toInt_inj, hsummary.analyses, hrows]
  rfl

end Samples

end Web.Exchange

end Appraisal
