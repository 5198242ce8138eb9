import Appraisal.Proofs.Turns

/-!
# Lost updates

Two jobs of a user that have both read the progress before either writes it count as one, since
each writes the totals that follow from its own read (`update_lost`). Nothing else goes wrong:
when all jobs of a user have finished, and a count can hold the user's analyses, the totals are
right exactly when no two of the jobs were ever between their read and their write at once
(`tallied_iff_exclusive`).
-/

namespace Appraisal

namespace Race

variable {build : Build} {userId : String}

theorem view_run {P : View → Prop} (hturn : ∀ view after, P view → view.Turn after → P after) :
    ∀ (schedule : List Nat) {race : Race}, P (race.view userId) →
      P ((race.run build schedule).view userId)
  | [], _, h => h
  | i :: schedule, race, h => by
    rw [run_cons]
    refine view_run hturn schedule ?_
    rcases race.view_step build i userId with he | ht
    · rw [he]
      exact h
    · exact hturn _ _ h ht

/-- Whether no two jobs of the user are ever between their read and their write at once. -/
def Exclusive (build : Build) (race : Race) (schedule : List Nat) (userId : String) : Prop :=
  ∀ before, before <+: schedule → ((race.run build before).view userId).Exclusive

theorem Exclusive.tail {race : Race} {i : Nat} {schedule : List Nat}
    (h : race.Exclusive build (i :: schedule) userId) :
    (race.step build i).Exclusive build schedule userId := by
  intro before hb
  rw [← run_cons]
  exact h (i :: before) (List.cons_prefix_cons.2 ⟨rfl, hb⟩)

theorem orderly_run {base : Nat} : ∀ (schedule : List Nat) {race : Race},
    race.Exclusive build schedule userId → (race.view userId).Fits base →
    (race.view userId).Orderly base → (race.view userId).Housed base → (race.view userId).Best →
    ((race.run build schedule).view userId).Orderly base ∧
      ((race.run build schedule).view userId).Best
  | [], _, _, _, ho, _, hb => ⟨ho, hb⟩
  | i :: schedule, race, he, hfits, ho, hh, hb => by
    rw [run_cons]
    rcases race.view_step build i userId with hv | ht
    · exact orderly_run schedule he.tail (hv ▸ hfits) (hv ▸ ho) (hv ▸ hh) (hv ▸ hb)
    · have ho' := ho.count (he [] (List.nil_prefix)) (hfits.turn ht) ht.count
      exact orderly_run schedule he.tail (hfits.turn ht) ho' (hh.turn ht) (hb.turn ho hh ht)

theorem doomed_run {base : Nat} {race : Race} {schedule : List Nat}
    (hfits : (race.view userId).Fits base) (hb : (race.view userId).Bounded base)
    (he : ¬ race.Exclusive build schedule userId) :
    ((race.run build schedule).view userId).Doomed base := by
  unfold Exclusive at he
  push Not at he
  obtain ⟨before, ⟨rest, rfl⟩, hne⟩ := he
  unfold View.Exclusive at hne
  push Not at hne
  obtain ⟨i, k, read, other, hi, hk, hne⟩ := hne
  obtain ⟨hfits', hbound⟩ := view_run (P := fun view => view.Fits base ∧ view.Bounded base)
    (fun _ _ h ht => ⟨h.1.turn ht, h.2.count (h.1.turn ht) ht.count⟩) before ⟨hfits, hb⟩
  rw [run_append]
  exact (view_run (P := fun view => view.Fits base ∧ view.Bounded base ∧ view.Doomed base)
    (fun _ _ h ht => ⟨h.1.turn ht, h.2.1.count (h.1.turn ht) ht.count, h.2.2.turn h.2.1 h.1 ht⟩)
    rest ⟨hfits', hbound, .overlap hne hi hk⟩).2.2

/-- If a count can hold the analyses that a user has once all jobs of the user have finished, it can
hold all those before. -/
theorem fits_of_run {base : Nat} {race : Race} {schedule : List Nat}
    (hh : ((race.run build schedule).view userId).Housed base)
    (hf : ((race.run build schedule).view userId).All .finished)
    (hcount : ((race.run build schedule).view userId).rows.length < 2 ^ 31) :
    (race.view userId).Fits base := by
  have hall : ((race.run build schedule).view userId).number (fun _ => true) =
      (race.view userId).number fun _ => true :=
    view_run
      (P := fun view => view.number (fun _ => true) = (race.view userId).number fun _ => true)
      (fun _ _ h ht => ht.number_all.trans h) schedule rfl
  have hlanded := hf.number_eq Stage.landed (fun _ => true) rfl
  rw [hh.length, hlanded, hall] at hcount
  exact hcount

theorem all_view {race : Race} {stage : Stage}
    (h : ∀ job ∈ race.jobs, job.row.userId = userId → job.stage = stage) :
    (race.view userId).All stage := by
  intro i job hi
  have hj : (race.jobs.map (Job.of? userId))[i]? = some (some job) := hi
  rw [List.getElem?_map, Option.map_eq_some_iff] at hj
  obtain ⟨other, ho, he⟩ := hj
  unfold Job.of? at he
  split_ifs at he with hu
  cases he
  exact h job (List.mem_of_getElem? ho) hu

/-- When all jobs of a user have finished, and the user has no more analyses than a count can hold,
the totals are right exactly when no two of the jobs were ever between their read and their write at
once. -/
theorem tallied_iff_exclusive {race : Race} {schedule : List Nat}
    (hstart : (race.view userId).Tallied)
    (hwaiting : ∀ job ∈ race.jobs, job.row.userId = userId → job.stage = .waiting)
    (hfinished : ∀ job ∈ (race.run build schedule).jobs, job.row.userId = userId →
      job.stage = .finished)
    (hcount : ((race.run build schedule).view userId).rows.length < 2 ^ 31) :
    ((race.run build schedule).view userId).Tallied ↔ race.Exclusive build schedule userId := by
  have hw := all_view hwaiting
  have hf := all_view hfinished
  have ho := hstart.orderly hw
  have hh := View.Tallied.housed hw
  have hh' : ((race.run build schedule).view userId).Housed (race.view userId).rows.length :=
    view_run (fun _ _ h ht => h.turn ht) schedule hh
  have hfits := fits_of_run hh' hf hcount
  constructor
  · intro ht
    by_contra he
    have hb : (race.view userId).Bounded (race.view userId).rows.length :=
      ⟨Int.le_of_eq ho.totals, fun i read hc => absurd hc (hw.not_counting fun read => by simp)⟩
    exact (doomed_run hfits hb he).not_tallied hh' hf ht
  · intro he
    obtain ⟨ho', hb'⟩ := orderly_run schedule he hfits ho hh hstart.best
    exact ho'.tallied hh' hb' hf

section Success

variable {archive : Archive} {job : Job}

theorem step_of_advance {race : Race} {i : Nat} {stage : Stage} {db : Database}
    (hi : race.jobs[i]? = some job) (ha : job.advance .release race.db = (stage, db)) :
    race.step .release i = ⟨db, race.jobs.set i (job.moved stage)⟩ := by
  rw [step_of_getElem? hi, ha]

theorem advance_waiting (hs : job.stage = .waiting) (ha : archive.Admits job.row) :
    job.advance .release (.working archive) = (.stored, .working (archive.stored job.row)) := by
  have hadd : (Database.working archive).addAnalysis job.stamp job.fresh =
      .ok (job.row, .working (archive.stored job.row)) :=
    Database.addAnalysis_eq_ok_iff.2 ⟨rfl, rfl, rfl, ha, rfl, rfl⟩
  simp only [Job.advance, hs, hadd]

theorem advance_stored {read : Option ProgressRow} (hs : job.stage = .stored)
    (ht : Archive.holdsTexts [job.row.userId] = true)
    (hr : archive.progress.find? (fun row => row.userId == job.row.userId) = read) :
    job.advance .release (.working archive) = (.counting read, .working archive) := by
  have hread : (Database.working archive).progress? job.row.userId = .ok read :=
    Database.progress?_eq_ok_iff.2 ⟨rfl, ht, hr.symm⟩
  simp only [Job.advance, hs, hread]
  rfl

theorem advance_counting {read : Option ProgressRow} (hs : job.stage = .counting read)
    {before : Archive} (ha : before.Admits job.row)
    (hi : Archive.holdsTexts [job.stamp.progressId] = true)
    (hu : archive.hasUser job.row.userId = true)
    (hroom : archive.hasRoomFor (Database.progressAfter job.stamp job.row read) = true) :
    job.advance .release (.working archive) = (.finished,
      .working (archive.withProgress (Database.progressAfter job.stamp job.row read))) := by
  have hwrite : (Database.working archive).writeProgress
      (Database.progressAfter job.stamp job.row read) =
      .ok (.working (archive.withProgress (Database.progressAfter job.stamp job.row read))) :=
    Database.writeProgress_progressAfter _ rfl hi ha hu hroom
  simp only [Job.advance, hs, hwrite]

end Success

section Pair

variable {archive : Archive} {a b : Job}

theorem run_store (hsa : a.stage = .waiting) (hsb : b.stage = .waiting)
    (ha : archive.Admits a.row) (hb : (archive.stored a.row).Admits b.row) :
    run .release ⟨.working archive, [a, b]⟩ [0, 1] =
      ⟨.working ((archive.stored a.row).stored b.row), [a.moved .stored, b.moved .stored]⟩ := by
  have hfirst : step .release ⟨.working archive, [a, b]⟩ 0 =
      ⟨.working (archive.stored a.row), [a.moved .stored, b]⟩ :=
    step_of_advance rfl (advance_waiting hsa ha)
  have hsecond : step .release ⟨.working (archive.stored a.row), [a.moved .stored, b]⟩ 1 =
      ⟨.working ((archive.stored a.row).stored b.row), [a.moved .stored, b.moved .stored]⟩ :=
    step_of_advance rfl (advance_waiting hsb hb)
  rw [run_cons, hfirst, run_cons, hsecond]
  rfl

theorem run_read {read : Option ProgressRow} (hsa : a.stage = .stored) (hsb : b.stage = .stored)
    (hu : b.row.userId = a.row.userId) (ht : Archive.holdsTexts [a.row.userId] = true)
    (hr : archive.progress.find? (fun row => row.userId == a.row.userId) = read) :
    run .release ⟨.working archive, [a, b]⟩ [0, 1] =
      ⟨.working archive, [a.moved (.counting read), b.moved (.counting read)]⟩ := by
  have hfirst : step .release ⟨.working archive, [a, b]⟩ 0 =
      ⟨.working archive, [a.moved (.counting read), b]⟩ :=
    step_of_advance rfl (advance_stored hsa ht hr)
  have hsecond : step .release ⟨.working archive, [a.moved (.counting read), b]⟩ 1 =
      ⟨.working archive, [a.moved (.counting read), b.moved (.counting read)]⟩ :=
    step_of_advance rfl (advance_stored hsb (hu ▸ ht) (hu ▸ hr))
  rw [run_cons, hfirst, run_cons, hsecond]
  rfl

theorem run_write {read : Option ProgressRow} (hsa : a.stage = .counting read)
    (hsb : b.stage = .counting read) (hu : b.row.userId = a.row.userId)
    {before between : Archive} (ha : before.Admits a.row) (hb : between.Admits b.row)
    (hia : Archive.holdsTexts [a.stamp.progressId] = true)
    (hib : Archive.holdsTexts [b.stamp.progressId] = true)
    (huser : archive.hasUser b.row.userId = true)
    (hroom : archive.hasRoomFor (Database.progressAfter a.stamp a.row read) = true) :
    run .release ⟨.working archive, [a, b]⟩ [0, 1] =
      ⟨.working ((archive.withProgress (Database.progressAfter a.stamp a.row read)).withProgress
        (Database.progressAfter b.stamp b.row read)), [a.moved .finished, b.moved .finished]⟩ := by
  have hfirst : step .release ⟨.working archive, [a, b]⟩ 0 =
      ⟨.working (archive.withProgress (Database.progressAfter a.stamp a.row read)),
        [a.moved .finished, b]⟩ :=
    step_of_advance rfl (advance_counting hsa ha hia (hu ▸ huser) hroom)
  have hroom' : (archive.withProgress (Database.progressAfter a.stamp a.row read)).hasRoomFor
      (Database.progressAfter b.stamp b.row read) = true :=
    Archive.hasRoomFor_withProgress archive hu.symm
  have hsecond : step .release ⟨.working (archive.withProgress
      (Database.progressAfter a.stamp a.row read)), [a.moved .finished, b]⟩ 1 = ⟨.working ((archive.withProgress
        (Database.progressAfter a.stamp a.row read)).withProgress
        (Database.progressAfter b.stamp b.row read)), [a.moved .finished, b.moved .finished]⟩ :=
    step_of_advance rfl (advance_counting hsb hb hib huser hroom')
  rw [run_cons, hfirst, run_cons, hsecond]
  rfl

/-- The archive after two jobs have been stored and have both read the progress before either
wrote it. -/
def overlapped (archive : Archive) (a b : Job) : Archive :=
  let read := archive.progress.find? fun row => row.userId == a.row.userId
  (((archive.stored a.row).stored b.row).withProgress
    (Database.progressAfter a.stamp a.row read)).withProgress
    (Database.progressAfter b.stamp b.row read)

theorem run_overlapping (hsa : a.stage = .waiting) (hsb : b.stage = .waiting)
    (hu : b.row.userId = a.row.userId) (ha : archive.Admits a.row)
    (hb : (archive.stored a.row).Admits b.row)
    (hia : Archive.holdsTexts [a.stamp.progressId] = true)
    (hib : Archive.holdsTexts [b.stamp.progressId] = true)
    (hroom : ∀ read, archive.hasRoomFor (Database.progressAfter a.stamp a.row read) = true) :
    run .release ⟨.working archive, [a, b]⟩ [0, 1, 0, 1, 0, 1] =
      ⟨.working (overlapped archive a b), [a.moved .finished, b.moved .finished]⟩ := by
  have hfind : ((archive.stored a.row).stored b.row).progress.find?
      (fun row => row.userId == a.row.userId) =
      archive.progress.find? fun row => row.userId == a.row.userId := by
    rw [Archive.progress_stored, Archive.progress_stored]
  have hread := run_read (a := a.moved .stored) (b := b.moved .stored) rfl rfl hu
    (ha.holds (by simp [Archive.rowTexts])) hfind
  rw [show [0, 1, 0, 1, 0, 1] = [0, 1] ++ ([0, 1] ++ [0, 1]) from rfl, run_append,
    run_store hsa hsb ha hb, run_append, hread]
  refine run_write (a := a.moved _) (b := b.moved _) rfl rfl hu ha hb hia hib
    (Archive.hasUser_stored _ b.row) ?_
  rw [Archive.hasRoomFor, Archive.progress_stored, Archive.progress_stored]
  exact hroom _

theorem rowsOf_overlapped (archive : Archive) (hu : b.row.userId = a.row.userId) :
    (overlapped archive a b).rowsOf a.row.userId =
      archive.rowsOf a.row.userId ++ [Archive.kept a.row, Archive.kept b.row] := by
  unfold overlapped
  rw [Archive.rowsOf_withProgress, Archive.rowsOf_withProgress, ← hu,
    Archive.rowsOf_stored_self, hu, Archive.rowsOf_stored_self, List.append_assoc]
  rfl

/-- What is written last follows from a read that had seen neither analysis. -/
theorem totalsOf_overlapped (archive : Archive) (hu : b.row.userId = a.row.userId) :
    (overlapped archive a b).totalsOf a.row.userId =
      some (.next (archive.totalsOf a.row.userId) b.row.overallScore.toInt b.row.language
        b.row.targetCompany) := by
  unfold overlapped
  exact hu ▸ Archive.totalsOf_withProgress_self _ (Database.progressAfter b.stamp b.row _)

end Pair

/-- A submission by one user, with a new id and some score. -/
def sample (id : String) (score : UInt8) : Job where
  stamp := ⟨id, "progress of " ++ id, ⟨0, 0⟩⟩
  fresh :=
    { userId := "ada", title := "Sum", code := "return 1", language := "python"
      targetCompany := "google"
      report :=
        { overallScore := score, timeComplexity := "O(n)", spaceComplexity := "O(1)"
          languagePerformance := .medium, dataStructures := .good, redundantLogic := 0
          modularity := .good, benchmark := .meetsRequirements, suggestions := []
          strengths := [], weaknesses := [], explanation := "Done."
          feedback := ⟨"Fine.", "Fine.", "Fine.", "Fine."⟩ } }

/-- Two submissions by one user to an empty archive. -/
def pair : Race := ⟨.working .empty, [sample "a" 90, sample "b" 40]⟩

theorem run_pair : pair.run .release [0, 1, 0, 1, 0, 1] =
    ⟨.working (overlapped .empty (sample "a" 90) (sample "b" 40)),
      [(sample "a" 90).moved .finished, (sample "b" 40).moved .finished]⟩ := by
  refine run_overlapping rfl rfl rfl ?_ ?_ (by decide) (by decide) fun _ => rfl
  · refine Archive.admits_row_iff.2 ⟨?_, ?_, ?_, ?_⟩ <;> decide
  · refine Archive.admits_row_iff.2 ⟨?_, ?_, ?_, ?_⟩ <;> decide

theorem waiting_pair : ∀ job ∈ pair.jobs, job.row.userId = "ada" → job.stage = .waiting := by
  decide

theorem finished_pair : ∀ job ∈ (pair.run .release [0, 1, 0, 1, 0, 1]).jobs,
    job.row.userId = "ada" → job.stage = .finished := by
  rw [run_pair]
  decide

theorem rows_pair : ((pair.run .release [0, 1, 0, 1, 0, 1]).view "ada").rows =
    [Archive.kept (sample "a" 90).row, Archive.kept (sample "b" 40).row] := by
  rw [run_pair]
  exact rowsOf_overlapped .empty (a := sample "a" 90) (b := sample "b" 40) rfl

theorem tallied_iff_exclusive_pair :
    (pair.view "ada").Tallied ∧
    (∀ job ∈ pair.jobs, job.row.userId = "ada" → job.stage = .waiting) ∧
    (∀ job ∈ (pair.run .release [0, 1, 0, 1, 0, 1]).jobs,
      job.row.userId = "ada" → job.stage = .finished) ∧
    ((pair.run .release [0, 1, 0, 1, 0, 1]).view "ada").rows.length < 2 ^ 31 ∧
    (((pair.run .release [0, 1, 0, 1, 0, 1]).view "ada").Tallied ↔
      pair.Exclusive .release [0, 1, 0, 1, 0, 1] "ada") := by
  have hstart : (pair.view "ada").Tallied := rfl
  have hcount : ((pair.run .release [0, 1, 0, 1, 0, 1]).view "ada").rows.length < 2 ^ 31 := by
    rw [rows_pair]
    decide
  exact ⟨hstart, waiting_pair, finished_pair, hcount,
    tallied_iff_exclusive hstart waiting_pair finished_pair hcount⟩

/-- Two analyses are stored, with the scores 90 and 40, and the totals know of one of them. -/
theorem update_lost :
    (∀ job ∈ pair.jobs, job.row.userId = "ada" ∧ job.stage = .waiting) ∧
    (∀ job ∈ (pair.run .release [0, 1, 0, 1, 0, 1]).jobs, job.stage = .finished) ∧
    ((pair.run .release [0, 1, 0, 1, 0, 1]).view "ada").rows.map (·.overallScore.toInt) = [90, 40] ∧
    ((pair.run .release [0, 1, 0, 1, 0, 1]).view "ada").totals.map (fun t => (t.analyses, t.best)) =
      some (1, 40) ∧
    ¬ ((pair.run .release [0, 1, 0, 1, 0, 1]).view "ada").Tallied := by
  have htotals : ((pair.run .release [0, 1, 0, 1, 0, 1]).view "ada").totals =
      some (.next none 40 "python" "google") := by
    rw [run_pair]
    exact totalsOf_overlapped .empty (a := sample "a" 90) (b := sample "b" 40) rfl
  refine ⟨by decide, ?_, ?_, ?_, ?_⟩
  · rw [run_pair]
    decide
  · rw [rows_pair]
    decide
  · rw [htotals]
    rfl
  · refine mt View.Tallied.length ?_
    rw [rows_pair, htotals]
    decide

end Race

end Appraisal
