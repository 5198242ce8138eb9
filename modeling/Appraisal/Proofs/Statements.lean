import Appraisal.Archive.Database
import Appraisal.Proofs.Formats
import Appraisal.Proofs.Printable

/-!
# What the statements do

When a statement succeeds, and the archive after it: an analysis is stored by `stored`, a row of
progress is written by `withProgress`. What a user then owns is read off by `rowsOf` and
`totalsOf`.
-/

namespace Appraisal

namespace Archive

/-- The analyses of a user in the order in which they were added. -/
def rowsOf (archive : Archive) (userId : String) : List AnalysisRow :=
  archive.analyses.filter fun row => row.userId == userId

/-- The totals of a user, if there are any. -/
def totalsOf (archive : Archive) (userId : String) : Option Totals :=
  (archive.progress.find? fun row => row.userId == userId).map (·.totals)

/-- The archive with a user of whom nothing is known, unless the user is there. -/
def withUser (archive : Archive) (userId : String) : Archive :=
  if archive.hasUser userId then archive
  else { archive with
    users := archive.users ++ [⟨userId, unknownEmail userId, some unknownName⟩] }

/-- The archive with an analysis and its user. -/
def stored (archive : Archive) (row : AnalysisRow) : Archive :=
  { archive.withUser row.userId with analyses := archive.analyses ++ [kept row] }

/-- The archive with other progress of a user. -/
def withProgress (archive : Archive) (row : ProgressRow) : Archive :=
  { archive with progress := upsertProgress row archive.progress }

/-- Whether a row may be stored together with its user. -/
structure Admits (archive : Archive) (row : AnalysisRow) : Prop where
  texts : holdsTexts (rowTexts row) = true
  instant : holdsInstant row.createdAt = true
  fresh : archive.hasAnalysis row.id = false
  nonneg : 0 ≤ row.overallScore.toInt
  le : row.overallScore.toInt ≤ 100

section Texts

theorem holdsTexts_cons (text : String) (texts : List String) :
    holdsTexts (text :: texts) = (holdsTexts [text] && holdsTexts texts) := by
  simp [holdsTexts]

theorem holdsTexts_of_mem {text : String} {texts : List String} (h : holdsTexts texts = true)
    (ht : text ∈ texts) : holdsTexts [text] = true := by
  unfold holdsTexts at h ⊢
  rw [List.all_eq_true] at h
  simpa using h text ht

theorem Admits.holds {archive : Archive} {row : AnalysisRow} (h : archive.Admits row)
    {text : String} (ht : text ∈ rowTexts row) : holdsTexts [text] = true :=
  holdsTexts_of_mem h.texts ht

theorem holdsTexts_append (texts others : List String) :
    holdsTexts (texts ++ others) = (holdsTexts texts && holdsTexts others) := by
  simp [holdsTexts]

theorem toInt_overallScore_row (new : FreshAnalysis) (stamp : Stamp) :
    (new.row stamp).overallScore.toInt = new.report.overallScore.toNat := by
  have h := new.report.overallScore.toNat_lt
  exact Int32.toInt_ofNat_of_lt (by omega)

/-- The row of a report may be stored exactly when its texts may, its id is new and its score is
in range. Nothing is asked of the report as it is written. -/
theorem admits_row_iff {archive : Archive} {new : FreshAnalysis} {stamp : Stamp} :
    archive.Admits (new.row stamp) ↔
      holdsTexts [stamp.analysisId, new.userId, new.title, new.code, new.language,
        new.targetCompany, new.report.timeComplexity, new.report.spaceComplexity] = true ∧
      holdsInstant stamp.now = true ∧ archive.hasAnalysis stamp.analysisId = false ∧
      new.report.overallScore.toNat ≤ 100 := by
  have htexts : holdsTexts (rowTexts (new.row stamp)) =
      holdsTexts [stamp.analysisId, new.userId, new.title, new.code, new.language,
        new.targetCompany, new.report.timeComplexity, new.report.spaceComplexity] := by
    show holdsTexts ([stamp.analysisId, new.userId, new.title, new.code, new.language,
      new.targetCompany, new.report.timeComplexity, new.report.spaceComplexity] ++
      [new.report.toJson.encode]) = _
    rw [holdsTexts_append, holdsTexts_encode new.report.wellFormed_toJson, Bool.and_true]
  constructor
  · intro h
    refine ⟨?_, h.instant, h.fresh, ?_⟩
    · rw [← htexts]
      exact h.texts
    · have hle := h.le
      rw [toInt_overallScore_row] at hle
      omega
  · rintro ⟨ht, hi, hf, hs⟩
    refine ⟨?_, hi, hf, ?_, ?_⟩
    · rw [htexts]
      exact ht
    · rw [toInt_overallScore_row]
      omega
    · rw [toInt_overallScore_row]
      omega

end Texts

section Users

theorem hasUser_iff {archive : Archive} {userId : String} :
    archive.hasUser userId = true ↔ userId ∈ archive.users.map (·.id) := by
  simp [hasUser]

theorem mem_users_withUser {archive : Archive} {userId id : String} :
    id ∈ (archive.withUser userId).users.map (·.id) ↔
      id = userId ∨ id ∈ archive.users.map (·.id) := by
  unfold withUser
  split_ifs with h
  · rw [hasUser_iff] at h
    constructor
    · exact .inr
    · rintro (rfl | hid)
      · exact h
      · exact hid
  · rw [List.map_append, List.mem_append, or_comm]
    simp

@[simp] theorem analyses_withUser (archive : Archive) (userId : String) :
    (archive.withUser userId).analyses = archive.analyses := by
  unfold withUser
  split_ifs <;> rfl

@[simp] theorem progress_withUser (archive : Archive) (userId : String) :
    (archive.withUser userId).progress = archive.progress := by
  unfold withUser
  split_ifs <;> rfl

theorem nodup_users_withUser {archive : Archive} (h : (archive.users.map (·.id)).Nodup)
    (userId : String) : ((archive.withUser userId).users.map (·.id)).Nodup := by
  unfold withUser
  split_ifs with hu
  · exact h
  · rw [hasUser_iff] at hu
    rw [List.map_append, List.map_singleton, List.nodup_append]
    refine ⟨h, by simp, ?_⟩
    intro id hid other ho he
    rw [List.mem_singleton] at ho
    rw [he, ho] at hid
    exact hu hid

end Users

section Stored

@[simp] theorem analyses_stored (archive : Archive) (row : AnalysisRow) :
    (archive.stored row).analyses = archive.analyses ++ [kept row] := rfl

@[simp] theorem users_stored (archive : Archive) (row : AnalysisRow) :
    (archive.stored row).users = (archive.withUser row.userId).users := rfl

@[simp] theorem progress_stored (archive : Archive) (row : AnalysisRow) :
    (archive.stored row).progress = archive.progress :=
  progress_withUser archive row.userId

theorem hasUser_stored (archive : Archive) (row : AnalysisRow) :
    (archive.stored row).hasUser row.userId = true := by
  rw [hasUser_iff, users_stored, mem_users_withUser]
  exact .inl rfl

theorem rowsOf_stored_self (archive : Archive) (row : AnalysisRow) :
    (archive.stored row).rowsOf row.userId = archive.rowsOf row.userId ++ [kept row] := by
  simp [rowsOf, kept]

theorem rowsOf_stored_of_ne {row : AnalysisRow} {userId : String} (h : row.userId ≠ userId)
    (archive : Archive) : (archive.stored row).rowsOf userId = archive.rowsOf userId := by
  simp [rowsOf, kept, h]

/-- An id that is admitted is new. -/
theorem nodup_analyses_stored {archive : Archive} {row : AnalysisRow}
    (h : (archive.analyses.map (·.id)).Nodup) (ha : archive.Admits row) :
    ((archive.stored row).analyses.map (·.id)).Nodup := by
  rw [analyses_stored, List.map_append, List.map_singleton, List.nodup_append]
  refine ⟨h, by simp, ?_⟩
  intro id hid other ho he
  obtain ⟨old, hold, rfl⟩ := List.mem_map.1 hid
  rw [List.mem_singleton.1 ho] at he
  have hfresh := ha.fresh
  rw [hasAnalysis, List.any_eq_false] at hfresh
  exact hfresh old hold (beq_iff_eq.2 he)

@[simp] theorem totalsOf_stored (archive : Archive) (row : AnalysisRow) (userId : String) :
    (archive.stored row).totalsOf userId = archive.totalsOf userId := by
  unfold totalsOf
  rw [progress_stored]

end Stored

section Progress

@[simp] theorem rowsOf_withProgress (archive : Archive) (row : ProgressRow) (userId : String) :
    (archive.withProgress row).rowsOf userId = archive.rowsOf userId := rfl

theorem totalsOf_withProgress_self (archive : Archive) (row : ProgressRow) :
    (archive.withProgress row).totalsOf row.userId = some row.totals :=
  totals_find?_upsertProgress row archive.progress

theorem totalsOf_withProgress_of_ne {row : ProgressRow} {userId : String}
    (h : userId ≠ row.userId) (archive : Archive) :
    (archive.withProgress row).totalsOf userId = archive.totalsOf userId := by
  unfold totalsOf withProgress
  rw [find?_upsertProgress_of_ne h]

theorem users_upsertProgress (row : ProgressRow) : ∀ rows : List ProgressRow,
    (upsertProgress row rows).map (·.userId) =
      if row.userId ∈ rows.map (·.userId) then rows.map (·.userId)
      else rows.map (·.userId) ++ [row.userId]
  | [] => rfl
  | other :: rows => by
    unfold upsertProgress
    by_cases h : other.userId = row.userId
    · simp [h]
    · rw [if_neg h, List.map_cons, users_upsertProgress row rows, List.map_cons]
      simp only [List.mem_cons, Ne.symm h, false_or]
      split_ifs <;> rfl

/-- Progress that was written can be written again, under whatever id. -/
theorem hasRoomFor_withProgress (archive : Archive) {row other : ProgressRow}
    (h : row.userId = other.userId) : (archive.withProgress row).hasRoomFor other = true := by
  have hmem : row.userId ∈ (upsertProgress row archive.progress).map (·.userId) := by
    rw [users_upsertProgress]
    split_ifs with hu
    · exact hu
    · exact List.mem_append_right _ List.mem_cons_self
  obtain ⟨same, hsame, he⟩ := List.mem_map.1 hmem
  rw [hasRoomFor, Bool.or_eq_true]
  exact .inl (List.any_eq_true.2 ⟨same, hsame, beq_iff_eq.2 (he.trans h)⟩)

end Progress

section Success

theorem addUser_eq_ok_iff {archive after : Archive} {userId : String} :
    archive.addUser userId = .ok after ↔
      holdsTexts [userId] = true ∧ after = archive.withUser userId := by
  unfold addUser withUser
  cases holdsTexts [userId] with
  | false => simp
  | true => cases archive.hasUser userId <;> simp [eq_comm]

theorem accepts_withUser_iff {archive : Archive} {row : AnalysisRow} :
    (archive.withUser row.userId).accepts row = true ↔ archive.Admits row := by
  have hu : (archive.withUser row.userId).hasUser row.userId = true := by
    rw [hasUser_iff, mem_users_withUser]
    exact .inl rfl
  have ha : (archive.withUser row.userId).hasAnalysis row.id = archive.hasAnalysis row.id := by
    rw [hasAnalysis, analyses_withUser, hasAnalysis]
  unfold accepts
  rw [hu, ha]
  simp only [Bool.and_eq_true, Bool.not_eq_true', decide_eq_true_eq, and_true]
  constructor
  · rintro ⟨⟨⟨⟨ht, hi⟩, hf⟩, hn⟩, hl⟩
    exact ⟨ht, hi, hf, hn, hl⟩
  · rintro ⟨ht, hi, hf, hn, hl⟩
    exact ⟨⟨⟨⟨ht, hi⟩, hf⟩, hn⟩, hl⟩

theorem insertAnalysis_eq_ok_iff {archive after : Archive} {row : AnalysisRow} :
    archive.insertAnalysis row = .ok after ↔ archive.accepts row = true ∧
      after = { archive with analyses := archive.analyses ++ [kept row] } := by
  unfold insertAnalysis
  cases archive.accepts row <;> simp [eq_comm]

theorem writeProgress_eq_ok_iff {archive after : Archive} {row : ProgressRow} :
    archive.writeProgress row = .ok after ↔
      holdsTexts ([row.id, row.userId] ++ totalsTexts row.totals) = true ∧
        archive.hasUser row.userId = true ∧ archive.hasRoomFor row = true ∧
        after = archive.withProgress row := by
  unfold writeProgress withProgress
  cases holdsTexts ([row.id, row.userId] ++ totalsTexts row.totals) with
  | false => simp
  | true =>
    cases archive.hasUser row.userId with
    | false => simp
    | true => cases archive.hasRoomFor row <;> simp [eq_comm]

end Success

end Archive

namespace Database

/-- The database over an archive none of whose statements fails. -/
def working (archive : Archive) : Database := ⟨archive, fun _ => false, fun _ => true⟩

@[simp] theorem archive_withArchive (db : Database) (archive : Archive) :
    (db.withArchive archive).archive = archive := rfl

@[simp] theorem broken_withArchive (db : Database) (archive : Archive) :
    (db.withArchive archive).broken = db.broken := rfl

@[simp] theorem indexable_withArchive (db : Database) (archive : Archive) :
    (db.withArchive archive).indexable = db.indexable := rfl

theorem run_eq_ok_iff {α : Type} {db : Database} {statement : Statement}
    {result : Except ArchiveError α} {value : α} :
    db.run statement result = .ok value ↔ db.broken statement = false ∧ result = .ok value := by
  unfold run
  cases db.broken statement <;> simp

theorem map_eq_ok_iff {ε α β : Type} {result : Except ε α} {f : α → β} {value : β} :
    result.map f = .ok value ↔ ∃ a, result = .ok a ∧ value = f a := by
  cases result <;> simp [Except.map, eq_comm]

theorem insertAnalysis_eq_ok_iff {db after : Database} {row : AnalysisRow} :
    db.insertAnalysis row = .ok after ↔ db.indexable row.userId = true ∧
      db.broken .insertAnalysis = false ∧ db.archive.accepts row = true ∧
      after = db.withArchive { db.archive with
        analyses := db.archive.analyses ++ [Archive.kept row] } := by
  unfold insertAnalysis
  cases db.indexable row.userId with
  | false => simp
  | true =>
    rw [if_pos rfl, map_eq_ok_iff]
    constructor
    · rintro ⟨archive, hr, rfl⟩
      obtain ⟨hb, ha⟩ := run_eq_ok_iff.1 hr
      obtain ⟨hacc, rfl⟩ := Archive.insertAnalysis_eq_ok_iff.1 ha
      exact ⟨rfl, hb, hacc, rfl⟩
    · rintro ⟨-, hb, hacc, rfl⟩
      exact ⟨_, run_eq_ok_iff.2 ⟨hb, Archive.insertAnalysis_eq_ok_iff.2 ⟨hacc, rfl⟩⟩, rfl⟩

/-- Storing an analysis succeeds exactly when neither statement is broken, the id of the user is
short enough for the indexes, and the archive may hold the row. -/
theorem addAnalysis_eq_ok_iff {db after : Database} {stamp : Stamp} {new : FreshAnalysis}
    {row : AnalysisRow} :
    db.addAnalysis stamp new = .ok (row, after) ↔
      db.broken .insertUser = false ∧ db.broken .insertAnalysis = false ∧
        db.indexable new.userId = true ∧ db.archive.Admits (new.row stamp) ∧ row = new.row stamp ∧
        after = db.withArchive (db.archive.stored (new.row stamp)) := by
  have huser : new.userId = (new.row stamp).userId := rfl
  unfold addAnalysis
  constructor
  · intro h
    cases hu : db.addUser new.userId with
    | error e =>
      rw [hu] at h
      cases h
    | ok db1 =>
      rw [hu] at h
      obtain ⟨archive1, hr, rfl⟩ := map_eq_ok_iff.1 hu
      obtain ⟨hb1, ha1⟩ := run_eq_ok_iff.1 hr
      obtain ⟨-, rfl⟩ := Archive.addUser_eq_ok_iff.1 ha1
      cases hi : (db.withArchive (db.archive.withUser new.userId)).insertAnalysis
          (new.row stamp) with
      | error e =>
        simp only [bind, Except.bind, hi] at h
        cases h
      | ok db2 =>
        simp only [bind, Except.bind, hi] at h
        cases h
        obtain ⟨hidx, hb2, hacc, rfl⟩ := insertAnalysis_eq_ok_iff.1 hi
        rw [archive_withArchive, huser] at hacc
        refine ⟨hb1, hb2, hidx, Archive.accepts_withUser_iff.1 hacc, rfl, ?_⟩
        simp [withArchive, Archive.stored, huser]
  · rintro ⟨hb1, hb2, hidx, hadm, rfl, rfl⟩
    have htext : new.userId ∈ Archive.rowTexts (new.row stamp) :=
      List.mem_append_left _ (List.mem_cons_of_mem _ List.mem_cons_self)
    have hu : db.addUser new.userId =
        .ok (db.withArchive (db.archive.withUser new.userId)) :=
      map_eq_ok_iff.2 ⟨_, run_eq_ok_iff.2 ⟨hb1, Archive.addUser_eq_ok_iff.2
        ⟨hadm.holds htext, rfl⟩⟩, rfl⟩
    have hi : (db.withArchive (db.archive.withUser new.userId)).insertAnalysis (new.row stamp) =
        .ok (db.withArchive (db.archive.stored (new.row stamp))) := by
      refine insertAnalysis_eq_ok_iff.2 ⟨hidx, hb2, ?_, ?_⟩
      · rw [archive_withArchive, huser]
        exact Archive.accepts_withUser_iff.2 hadm
      · simp [withArchive, Archive.stored, huser]
    simp only [hu, hi, bind, Except.bind]
    rfl

theorem progress?_eq_ok_iff {db : Database} {userId : String} {read : Option ProgressRow} :
    db.progress? userId = .ok read ↔ db.broken .readProgress = false ∧
      Archive.holdsTexts [userId] = true ∧
      read = db.archive.progress.find? fun row => row.userId == userId := by
  unfold progress? Archive.progress?
  rw [run_eq_ok_iff]
  cases Archive.holdsTexts [userId] with
  | false => simp
  | true => simp [@eq_comm _ read]

theorem writeProgress_eq_ok_iff {db after : Database} {row : ProgressRow} :
    db.writeProgress row = .ok after ↔ db.broken .writeProgress = false ∧
      Archive.holdsTexts ([row.id, row.userId] ++ Archive.totalsTexts row.totals) = true ∧
      db.archive.hasUser row.userId = true ∧ db.archive.hasRoomFor row = true ∧
      after = db.withArchive (db.archive.withProgress row) := by
  unfold writeProgress
  rw [map_eq_ok_iff]
  constructor
  · rintro ⟨archive, hr, rfl⟩
    obtain ⟨hb, ha⟩ := run_eq_ok_iff.1 hr
    obtain ⟨ht, hu, hroom, rfl⟩ := Archive.writeProgress_eq_ok_iff.1 ha
    exact ⟨hb, ht, hu, hroom, rfl⟩
  · rintro ⟨hb, ht, hu, hroom, rfl⟩
    exact ⟨_, run_eq_ok_iff.2 ⟨hb, Archive.writeProgress_eq_ok_iff.2 ⟨ht, hu, hroom, rfl⟩⟩, rfl⟩

/-- The progress after an analysis can be written if the analysis could be stored and the id for it
is new. -/
theorem writeProgress_progressAfter (db : Database) {archive : Archive} {stamp : Stamp}
    {row : AnalysisRow} (hb : db.broken .writeProgress = false)
    (hi : Archive.holdsTexts [stamp.progressId] = true) (ha : archive.Admits row)
    (hu : db.archive.hasUser row.userId = true) {read : Option ProgressRow}
    (hroom : db.archive.hasRoomFor (progressAfter stamp row read) = true) :
    db.writeProgress (progressAfter stamp row read) =
      .ok (db.withArchive (db.archive.withProgress (progressAfter stamp row read))) := by
  refine writeProgress_eq_ok_iff.2 ⟨hb, ?_, hu, hroom, rfl⟩
  show Archive.holdsTexts [stamp.progressId, row.userId, row.language, row.targetCompany] = true
  rw [Archive.holdsTexts_cons, hi, Archive.holdsTexts_cons,
    ha.holds (by simp [Archive.rowTexts]), Archive.holdsTexts_cons,
    ha.holds (by simp [Archive.rowTexts]), ha.holds (by simp [Archive.rowTexts])]
  rfl

end Database

end Appraisal
