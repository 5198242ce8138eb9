import Appraisal.Proofs.Room
import Appraisal.Proofs.Storable
import Mathlib.Data.List.Nodup

/-!
# What the archive holds

Whatever requests come, and whichever statements fail, each analysis in the archive was stored for
a report, under an id of its own and for a user who is there (`Archive.Intact`). Analyses are only
added: those in the archive stay in front of all that are added later (`analyses_prefix_run`), and
each was the answer to a submission where no count overflows (`saves_of_mem_run`).
-/

namespace Appraisal

def Stamp.kept (stamp : Stamp) : Stamp :=
  { stamp with now := .ofMicroseconds stamp.now.microseconds }

theorem Archive.kept_row (new : FreshAnalysis) (stamp : Stamp) :
    kept (new.row stamp) = new.row stamp.kept := rfl

/-- Whether a row is one that was stored for a report. -/
def AnalysisRow.Written (row : AnalysisRow) : Prop :=
  ∃ (new : FreshAnalysis) (stamp : Stamp), row = Archive.kept (new.row stamp)

namespace AnalysisRow.Written

variable {row : AnalysisRow}

theorem exists_record (h : row.Written) : ∃ record, Record.ofRow? row = some record := by
  obtain ⟨new, stamp, rfl⟩ := h
  rw [Archive.kept_row]
  exact ⟨_, Record.ofRow?_row new stamp.kept⟩

theorem kept (h : row.Written) : Archive.kept row = row := by
  obtain ⟨new, stamp, rfl⟩ := h
  exact Archive.kept_kept _

end AnalysisRow.Written

namespace Archive

structure Intact (archive : Archive) : Prop where
  users_nodup : (archive.users.map (·.id)).Nodup
  analyses_nodup : (archive.analyses.map (·.id)).Nodup
  authored : ∀ row ∈ archive.analyses, row.userId ∈ archive.users.map (·.id)
  written : ∀ row ∈ archive.analyses, row.Written

variable {archive other : Archive}

theorem intact_empty : empty.Intact where
  users_nodup := List.nodup_nil
  analyses_nodup := List.nodup_nil
  authored := by simp [empty]
  written := by simp [empty]

theorem Intact.of_tables (h : archive.Intact) (hu : other.users = archive.users)
    (ha : other.analyses = archive.analyses) : other.Intact := by
  constructor <;> simp only [hu, ha]
  · exact h.users_nodup
  · exact h.analyses_nodup
  · exact h.authored
  · exact h.written

theorem Intact.stored (h : archive.Intact) {new : FreshAnalysis} {stamp : Stamp}
    (ha : archive.Admits (new.row stamp)) : (archive.stored (new.row stamp)).Intact where
  users_nodup := nodup_users_withUser h.users_nodup _
  analyses_nodup := nodup_analyses_stored h.analyses_nodup ha
  authored := by
    intro row hrow
    rw [users_stored, mem_users_withUser]
    rcases List.mem_append.1 hrow with hrow | hrow
    · exact .inr (h.authored row hrow)
    · rw [List.mem_singleton.1 hrow]
      exact .inl rfl
  written := by
    intro row hrow
    rcases List.mem_append.1 hrow with hrow | hrow
    · exact h.written row hrow
    · exact ⟨new, stamp, List.mem_singleton.1 hrow⟩

/-- Rows with one id are the same. -/
theorem Intact.eq_of_id (h : archive.Intact) {row row' : AnalysisRow}
    (hrow : row ∈ archive.analyses) (hrow' : row' ∈ archive.analyses) (hid : row.id = row'.id) :
    row = row' :=
  List.inj_on_of_nodup_map h.analyses_nodup hrow hrow' hid

end Archive

namespace Web.Exchange

variable {exchange : Exchange} {archive : Archive} {submission : Submission}

theorem gives_of_submission? (h : exchange.submission? = some submission) :
    ∃ draft, draft? exchange.request = some draft ∧ draft.Gives submission := by
  unfold submission? at h
  split at h
  · obtain ⟨draft, hd, h⟩ := Option.bind_eq_some_iff.1 h
    exact ⟨draft, hd, Draft.gives_of_submission? h⟩
  · cases h

/-- What a submission does to the analyses and their users. -/
theorem tables_after (exchange : Exchange) (archive : Archive) :
    exchange.after archive = archive ∨ ∃ submission, exchange.Takes archive submission ∧
      (exchange.after archive).users = (archive.stored (exchange.row submission)).users ∧
      (exchange.after archive).analyses = (archive.stored (exchange.row submission)).analyses := by
  obtain he | ⟨submission, ht, he⟩ := exchange.after_cases archive
  · exact .inl he
  · refine .inr ⟨submission, ht, ?_, ?_⟩ <;> rw [he]
    · exact users_counted _ _ _ _
    · exact analyses_counted _ _ _ _

theorem intact_after (exchange : Exchange) (h : archive.Intact) :
    (exchange.after archive).Intact := by
  obtain he | ⟨submission, ht, hu, ha⟩ := exchange.tables_after archive
  · rw [he]
    exact h
  · exact (h.stored ht.admits).of_tables hu ha

theorem intact_run : ∀ (exchanges : List Exchange) {archive : Archive}, archive.Intact →
    (run archive exchanges).Intact
  | [], _, h => h
  | exchange :: exchanges, _, h => intact_run exchanges (exchange.intact_after h)

theorem analyses_prefix_after (exchange : Exchange) (archive : Archive) :
    archive.analyses <+: (exchange.after archive).analyses := by
  obtain he | ⟨submission, -, -, ha⟩ := exchange.tables_after archive
  · simp only [he, List.prefix_refl]
  · simp only [ha, Archive.analyses_stored, List.prefix_append]

theorem analyses_prefix_run : ∀ (exchanges : List Exchange) (archive : Archive),
    archive.analyses <+: (run archive exchanges).analyses
  | [], _ => List.prefix_refl _
  | exchange :: exchanges, archive =>
    (exchange.analyses_prefix_after archive).trans
      (analyses_prefix_run exchanges (exchange.after archive))

theorem run_append (archive : Archive) (earlier later : List Exchange) :
    run archive (earlier ++ later) = run (run archive earlier) later :=
  List.foldl_append

/-- A submission that is answered with success is taken. -/
theorem takes_of_status (hroute : route? exchange.request = some .submit)
    (hstatus : (exchange.handled archive).response.status = 200) :
    ∃ submission, exchange.Takes archive submission := by
  cases hs : exchange.submission? with
  | none =>
    -- the body is no draft, or the draft makes no submission
    exfalso
    rw [submission?, hroute] at hs
    unfold handled handle handleSubmission at hstatus
    rw [hroute] at hstatus
    cases hd : draft? exchange.request with
    | none =>
      have hrefused : refusalStatus exchange.request ≠ 200 := by
        unfold refusalStatus
        split_ifs <;> decide
      simp only [hd, rejected] at hstatus
      exact hrefused hstatus
    | some draft =>
      rw [hd] at hs
      replace hs : draft.submission? = none := hs
      simp [hd, hs, Problem.response, Problem.status] at hstatus
  | some submission =>
    by_cases hr : exchange.reachable = true
    · refine ⟨submission, ?_⟩
      by_contra ht
      rw [(refused_of_not_takes hs hr ht).1] at hstatus
      cases hstatus
    · have hdb : exchange.database? archive = none := if_neg hr
      rw [handled_eq_submit archive hs, hdb] at hstatus
      cases hstatus

theorem Takes.stores_of_status (h : exchange.Takes archive submission)
    (hstatus : (exchange.handled archive).response.status = 200) :
    exchange.Stores archive submission := by
  refine h.stores fun ho => ?_
  rw [(h.stored_of_overflows ho).1] at hstatus
  cases hstatus

/-- Whether a request in a run is answered with the record of an analysis that it stored. -/
def Saves (archive : Archive) (exchanges : List Exchange) (record : Record) : Prop :=
  ∃ earlier post later source, exchanges = earlier ++ post :: later ∧
    (post.handled (run archive earlier)).response = saved record source

theorem Saves.cons {exchanges : List Exchange} {record : Record}
    (h : Saves (exchange.after archive) exchanges record) :
    Saves archive (exchange :: exchanges) record := by
  obtain ⟨earlier, post, later, source, rfl, h⟩ := h
  exact ⟨exchange :: earlier, post, later, source, rfl, h⟩

/-- An analysis that a run adds was the answer to one of its requests, if no count overflows. -/
theorem saves_of_mem_run : ∀ (exchanges : List Exchange) {archive : Archive} {row : AnalysisRow},
    Roomy archive exchanges → row ∈ (run archive exchanges).analyses →
    row ∈ archive.analyses ∨ ∃ record, Saves archive exchanges record ∧ record.id = row.id
  | [], _, _, _, h => .inl h
  | exchange :: exchanges, archive, row, hroom, h => by
    rcases saves_of_mem_run exchanges hroom.after h with h | ⟨record, hrecord, hid⟩
    · obtain he | ⟨submission, ht, -, ha⟩ := exchange.tables_after archive
      · rw [he] at h
        exact .inl h
      · rw [ha] at h
        rcases List.mem_append.1 h with h | h
        · exact .inl h
        · rw [List.mem_singleton.1 h]
          have hstores := ht.stores (hroom.not_overflows ht.sent)
          exact .inr ⟨_, ⟨[], exchange, exchanges, _, rfl, hstores.response⟩, rfl⟩
    · exact .inr ⟨record, hrecord.cons, hid⟩

theorem takes_trial : ∃ submission, (trial none).Takes .empty submission ∧
    submission.userId = "ada" :=
  @takes_sample "a" "progress of a" .empty (by decide) rfl

end Web.Exchange

end Appraisal
