import Appraisal.Proofs.Exchange
import Mathlib.Algebra.Group.Int.Defs
import Mathlib.Algebra.Group.Nat.Defs

/-!
# Room for what is to come

The count of a user has room for some requests when it stays below `2 ^ 31` even if each of the
user's submissions among them is counted (`Roomy`). One request leaves room for the ones after it
(`Roomy.after`), so that from the empty archive a run with fewer than `2 ^ 31` submissions of every
user never meets a count without a successor (`Roomy.not_overflows`). In the same way ids for
progress that are all different stay unused until their turn comes (`Unused.after`).
-/

namespace Appraisal

/-- The number of analyses that totals count. -/
def Totals.countOf (totals : Option Totals) : Int := (totals.getD .start).analyses.toInt

theorem Totals.countOf_next {previous : Option Totals} (h : countOf previous < 2147483647)
    (score : Int) (language company : String) :
    countOf (some (next previous score language company)) = countOf previous + 1 :=
  analyses_next h score language company

theorem Archive.id_of_mem_upsertProgress {row other : ProgressRow} : ∀ {rows : List ProgressRow},
    other ∈ upsertProgress row rows → other.id = row.id ∨ ∃ old ∈ rows, old.id = other.id
  | [], h => .inl (congrArg ProgressRow.id (List.mem_singleton.1 h))
  | old :: rows, h => by
    unfold upsertProgress at h
    split_ifs at h
    · rcases List.mem_cons.1 h with rfl | h
      · exact .inr ⟨old, List.mem_cons_self, rfl⟩
      · exact .inr ⟨other, List.mem_cons_of_mem _ h, rfl⟩
    · rcases List.mem_cons.1 h with rfl | h
      · exact .inr ⟨other, List.mem_cons_self, rfl⟩
      · obtain he | ⟨same, hsame, he⟩ := id_of_mem_upsertProgress h
        · exact .inl he
        · exact .inr ⟨same, List.mem_cons_of_mem _ hsame, he⟩

namespace Web.Exchange

open Totals (countOf)

/-- Whether a request is a submission by a user. -/
def submits (userId : String) (exchange : Exchange) : Bool :=
  exchange.submission?.any fun submission => submission.userId == userId

/-- How many of the requests are submissions by a user. -/
def submissions (exchanges : List Exchange) (userId : String) : Nat :=
  exchanges.countP (submits userId)

/-- Whether the count of every user has room for all that the requests may add to it. -/
structure Roomy (archive : Archive) (exchanges : List Exchange) : Prop where
  nonneg : ∀ userId, 0 ≤ countOf (archive.totalsOf userId)
  fits : ∀ userId, countOf (archive.totalsOf userId) + submissions exchanges userId < 2 ^ 31

/-- Whether the ids for new progress are all different, and none of them is in use. -/
structure Unused (archive : Archive) (exchanges : List Exchange) : Prop where
  nodup : (exchanges.map fun exchange => exchange.stamp.progressId).Nodup
  fresh : ∀ row ∈ archive.progress, ∀ exchange ∈ exchanges, row.id ≠ exchange.stamp.progressId

variable {exchange : Exchange} {exchanges : List Exchange} {archive : Archive}
  {submission : Submission}

theorem submissions_cons (exchange : Exchange) (exchanges : List Exchange) (userId : String) :
    submissions (exchange :: exchanges) userId =
      submissions exchanges userId + if exchange.submits userId = true then 1 else 0 :=
  List.countP_cons

theorem submits_userId (h : exchange.submission? = some submission) :
    exchange.submits submission.userId = true := by
  rw [submits, h, Option.any_some, beq_self_eq_true]

theorem roomy_empty (h : ∀ userId, submissions exchanges userId < 2 ^ 31) :
    Roomy .empty exchanges where
  nonneg _ := Int.le_refl 0
  fits userId := by
    have hlt := h userId
    show (0 : Int) + _ < _
    omega

theorem unused_empty (h : (exchanges.map fun exchange => exchange.stamp.progressId).Nodup) :
    Unused .empty exchanges where
  nodup := h
  fresh _ hrow := nomatch hrow

section Step

theorem Roomy.lt (h : Roomy archive (exchange :: exchanges))
    (hs : exchange.submission? = some submission) :
    countOf (archive.totalsOf submission.userId) < 2147483647 := by
  have hfits := h.fits submission.userId
  rw [submissions_cons, if_pos (submits_userId hs)] at hfits
  omega

theorem Roomy.not_overflows (h : Roomy archive (exchange :: exchanges))
    (hs : exchange.submission? = some submission) :
    ¬ exchange.Overflows archive submission.userId := by
  intro ho
  obtain ⟨totals, htotals, hfull⟩ := (Option.any_eq_true _ _).1 ho.full
  have hlt := h.lt hs
  rw [htotals, countOf, Option.getD_some, Totals.isFull_iff.1 hfull] at hlt
  exact Int.lt_irrefl _ hlt

/-- What a request does to the progress. -/
theorem progress_after (exchange : Exchange) (archive : Archive) :
    (exchange.after archive).progress = archive.progress ∨
      ∃ submission read, exchange.submission? = some submission ∧
        read.map ProgressRow.totals = archive.totalsOf submission.userId ∧
        (exchange.after archive).progress = Archive.upsertProgress
          (Database.progressAfter exchange.stamp (exchange.row submission) read)
          archive.progress := by
  obtain he | ⟨submission, ht, he⟩ := exchange.after_cases archive
  · exact .inl (by rw [he])
  · have hstored := Archive.progress_stored archive (exchange.row submission)
    obtain hc | ⟨read, hread, -, hc⟩ := counted_cases exchange.build
      (exchange.upon (archive.stored (exchange.row submission))) exchange.stamp
      (exchange.row submission)
    · exact .inl (by rw [he, hc]; exact hstored)
    · obtain ⟨-, -, rfl⟩ := Database.progress?_eq_ok_iff.1 hread
      refine .inr ⟨submission, (archive.stored (exchange.row submission)).progress.find?
        fun row => row.userId == submission.userId, ht.sent, ?_, ?_⟩
      · exact Archive.totalsOf_stored archive _ _
      · rw [he, hc]
        exact congrArg (Archive.upsertProgress _) hstored

theorem Roomy.fits_tail (h : Roomy archive (exchange :: exchanges)) (userId : String) :
    countOf (archive.totalsOf userId) + submissions exchanges userId < 2 ^ 31 := by
  have hfits := h.fits userId
  rw [submissions_cons] at hfits
  split_ifs at hfits <;> omega

/-- A submission adds one to the count of its user at most, and nothing to another. -/
theorem Roomy.after (h : Roomy archive (exchange :: exchanges)) :
    Roomy (exchange.after archive) exchanges := by
  obtain he | ⟨submission, read, hs, hread, he⟩ := exchange.progress_after archive
  · have hsame : ∀ userId, (exchange.after archive).totalsOf userId = archive.totalsOf userId :=
      fun userId => by rw [Archive.totalsOf, he, Archive.totalsOf]
    constructor <;> intro userId <;> rw [hsame]
    · exact h.nonneg userId
    · exact h.fits_tail userId
  · have hother : ∀ {userId}, userId ≠ submission.userId →
        (exchange.after archive).totalsOf userId = archive.totalsOf userId := by
      intro userId hne
      rw [Archive.totalsOf, he, Archive.find?_upsertProgress_of_ne hne, Archive.totalsOf]
    have hself : countOf ((exchange.after archive).totalsOf submission.userId) =
        countOf (archive.totalsOf submission.userId) + 1 := by
      have htotals : (exchange.after archive).totalsOf submission.userId =
          some (Database.progressAfter exchange.stamp (exchange.row submission) read).totals := by
        rw [Archive.totalsOf, he]
        exact Archive.totals_find?_upsertProgress (Database.progressAfter exchange.stamp
          (exchange.row submission) read) archive.progress
      rw [htotals, Database.progressAfter, hread, Totals.countOf_next (h.lt hs)]
    constructor <;> intro userId <;> by_cases hu : userId = submission.userId
    · subst hu
      have hnonneg := h.nonneg submission.userId
      omega
    · rw [hother hu]
      exact h.nonneg userId
    · subst hu
      have hfits := h.fits submission.userId
      rw [submissions_cons, if_pos (submits_userId hs)] at hfits
      omega
    · rw [hother hu]
      exact h.fits_tail userId

theorem Unused.after (h : Unused archive (exchange :: exchanges)) :
    Unused (exchange.after archive) exchanges := by
  obtain ⟨hnew, hnodup⟩ := List.nodup_cons.1 h.nodup
  refine ⟨hnodup, fun row hrow other hother hid => ?_⟩
  have hold : ∀ old ∈ archive.progress, old.id ≠ other.stamp.progressId :=
    fun old ho => h.fresh old ho other (List.mem_cons_of_mem _ hother)
  obtain he | ⟨submission, read, -, -, he⟩ := exchange.progress_after archive <;> rw [he] at hrow
  · exact hold row hrow hid
  · obtain hrow | ⟨old, ho, he⟩ := Archive.id_of_mem_upsertProgress hrow
    · exact hnew (List.mem_map.2 ⟨other, hother, hid.symm.trans hrow⟩)
    · exact hold old ho (he.trans hid)

/-- An unused id can be given to new progress. -/
theorem Unused.hasRoomFor (h : Unused archive (exchange :: exchanges)) (row : AnalysisRow)
    (read : Option ProgressRow) :
    archive.hasRoomFor (Database.progressAfter exchange.stamp row read) = true := by
  have hnew : archive.progress.any (fun other => other.id == exchange.stamp.progressId) = false :=
    List.any_eq_false.2 fun other ho => by
      simpa using h.fresh other ho exchange List.mem_cons_self
  rw [Archive.hasRoomFor, Bool.or_eq_true]
  exact .inr (by rw [Database.progressAfter, hnew]; rfl)

end Step

theorem Roomy.run : ∀ (earlier : List Exchange) {archive : Archive} {later : List Exchange},
    Roomy archive (earlier ++ later) → Roomy (run archive earlier) later
  | [], _, _, h => h
  | _ :: earlier, _, _, h => Roomy.run earlier h.after

end Web.Exchange

end Appraisal
