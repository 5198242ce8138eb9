import Appraisal.Proofs.Race

/-!
# Turns and totals

How the turns of a view keep its totals right or make them wrong. While no two jobs are between
their read and their write, every read is up to date and the totals count each finished job
(`Orderly.count`), and only analyses that are not yet counted may score better than the best
(`Best.turn`). Once two jobs are, or a read is out of date, the totals count too little for good
(`Doomed.turn`), as no read counts more than has been finished (`Bounded.count`). All this is so
while a count can hold the analyses of the user (`Fits`).
-/

namespace Appraisal

namespace Stage

/-- Whether the analysis is stored. -/
def landed : Stage → Bool
  | .waiting | .refused => false
  | _ => true

/-- Whether the analysis is counted. -/
def counted : Stage → Bool
  | .finished => true
  | _ => false

/-- Whether the analysis is stored and not counted. -/
def pending : Stage → Bool
  | .stored | .counting _ | .uncounted => true
  | _ => false

end Stage

namespace View

open Totals (countOf)

/-- Whether the totals count the analyses and have the best of their scores. -/
def Tallied (view : View) : Prop :=
  match view.totals with
  | none => view.rows = []
  | some totals => totals.Tally view.rows

/-- Whether the job at a place is between its read, which gave this row, and its write. -/
def Counting (view : View) (i : Nat) (read : Option ProgressRow) : Prop :=
  ∃ job, view.jobs[i]? = some (some job) ∧ job.stage = .counting read

/-- Whether no two jobs are between their read and their write. -/
def Exclusive (view : View) : Prop :=
  ∀ i k read other, view.Counting i read → view.Counting k other → i = k

/-- The number of jobs at a stage of some kind. -/
def number (view : View) (kind : Stage → Bool) : Nat :=
  view.jobs.countP fun job => job.any fun job => kind job.stage

/-- Whether a count can hold the analyses of all jobs of the user on top of those before them. -/
def Fits (base : Nat) (view : View) : Prop := base + view.number (fun _ => true) < 2 ^ 31

section Jobs

variable {view : View} {i k : Nat} {job : Job} {stage : Stage} {rows : List AnalysisRow}
  {totals : Option Totals}

theorem number_set (rows : List AnalysisRow) (totals : Option Totals) (stage : Stage)
    (hi : view.jobs[i]? = some (some job)) (kind : Stage → Bool) :
    number ⟨rows, totals, view.jobs.set i (some (job.moved stage))⟩ kind +
        (if kind job.stage then 1 else 0) =
      view.number kind + if kind stage then 1 else 0 := by
  obtain ⟨hlt, he⟩ := List.getElem?_eq_some_iff.1 hi
  have hle := List.boole_getElem_le_countP
    (p := fun job => Option.any (fun job => kind job.stage) job) hlt
  unfold number
  rw [List.countP_set hlt]
  rw [he] at hle ⊢
  simp only [Option.any_some, Job.stage_moved] at hle ⊢
  rw [Nat.add_right_comm, Nat.sub_add_cancel hle]
  rfl

theorem getElem?_set_iff (hi : view.jobs[i]? = some (some job)) {other : Job} :
    (view.jobs.set i (some (job.moved stage)))[k]? = some (some other) ↔
      (k = i ∧ other = job.moved stage) ∨ (k ≠ i ∧ view.jobs[k]? = some (some other)) := by
  obtain ⟨hlt, -⟩ := List.getElem?_eq_some_iff.1 hi
  by_cases hk : k = i
  · subst hk
    rw [List.getElem?_set_self hlt]
    simp [eq_comm]
  · rw [List.getElem?_set_ne (Ne.symm hk)]
    simp [hk]

theorem counting_set_iff (hi : view.jobs[i]? = some (some job)) {read : Option ProgressRow} :
    Counting ⟨rows, totals, view.jobs.set i (some (job.moved stage))⟩ k read ↔
      (k = i ∧ stage = .counting read) ∨ (k ≠ i ∧ view.Counting k read) := by
  unfold Counting
  simp only [getElem?_set_iff hi]
  constructor
  · rintro ⟨other, ⟨rfl, rfl⟩ | ⟨hk, ho⟩, hs⟩
    · exact .inl ⟨rfl, hs⟩
    · exact .inr ⟨hk, other, ho, hs⟩
  · rintro (⟨rfl, hs⟩ | ⟨hk, other, ho, hs⟩)
    · exact ⟨job.moved stage, .inl ⟨rfl, rfl⟩, hs⟩
    · exact ⟨other, .inr ⟨hk, ho⟩, hs⟩

end Jobs

/-- Whether a job of the user failed after its analysis was stored. -/
def Dropped (view : View) : Prop :=
  ∃ (i : Nat) (job : Job), view.jobs[i]? = some (some job) ∧ job.stage = .uncounted

/-- What a turn does to the totals, and to the jobs that are about to write them. -/
inductive Count (view after : View) : Prop
  | quiet (ht : after.totals = view.totals)
      (hn : after.number Stage.counted = view.number Stage.counted)
      (hc : ∀ k read, after.Counting k read → view.Counting k read)
      (hk : (∀ k read, view.Counting k read → after.Counting k read) ∨ after.Dropped)
  | read (i : Nat) (row : Option ProgressRow) (ht : after.totals = view.totals)
      (hn : after.number Stage.counted = view.number Stage.counted)
      (hr : row.map (·.totals) = view.totals)
      (hc : ∀ k read, after.Counting k read ↔ (k = i ∧ read = row) ∨ view.Counting k read)
  | write (i : Nat) (row : Option ProgressRow) (score : Int) (language company : String)
      (hi : view.Counting i row)
      (ht : after.totals = some (.next (row.map (·.totals)) score language company))
      (hn : after.number Stage.counted = view.number Stage.counted + 1)
      (hc : ∀ k read, after.Counting k read ↔ k ≠ i ∧ view.Counting k read)

section Turns

variable {view after : View} {i k : Nat} {job : Job} {stage : Stage} {rows : List AnalysisRow}
  {totals : Option Totals} {read : Option ProgressRow}

theorem Counting.unique {other : Option ProgressRow} (h : view.Counting i read)
    (h' : view.Counting i other) : other = read := by
  obtain ⟨job, hj, hs⟩ := h
  obtain ⟨job', hj', hs'⟩ := h'
  rw [hj] at hj'
  cases hj'
  rw [hs] at hs'
  cases hs'
  rfl

theorem not_counting (hi : view.jobs[i]? = some (some job))
    (hs : ∀ read, job.stage ≠ .counting read) : ¬ view.Counting i read := by
  rintro ⟨other, ho, hc⟩
  rw [hi] at ho
  cases ho
  exact hs read hc

/-- A job that neither counts nor is going to count at once changes nothing about the counting. -/
theorem count_quiet (hi : view.jobs[i]? = some (some job)) (hd : job.stage.counted = false)
    (hd' : stage.counted = false) (hs : ∀ read, stage ≠ .counting read)
    (hk : (∀ read, job.stage ≠ .counting read) ∨ stage = .uncounted) :
    view.Count ⟨rows, view.totals, view.jobs.set i (some (job.moved stage))⟩ := by
  refine .quiet rfl ?_ ?_ ?_
  · have hn := number_set rows view.totals stage hi Stage.counted
    rw [hd, hd'] at hn
    simpa using hn
  · intro k read hc
    rcases (counting_set_iff hi).1 hc with ⟨-, he⟩ | ⟨-, hc⟩
    · exact absurd he (hs read)
    · exact hc
  · rcases hk with hk | rfl
    · refine .inl fun k read hc => (counting_set_iff hi).2 (.inr ⟨?_, hc⟩)
      rintro rfl
      exact not_counting hi hk hc
    · exact .inr ⟨i, job.moved .uncounted, (getElem?_set_iff hi).2 (.inl ⟨rfl, rfl⟩), rfl⟩

theorem Turn.count (ht : view.Turn after) : view.Count after := by
  cases ht with
  | store hi hs hn =>
    exact count_quiet hi (by rw [hs]; rfl) rfl (fun read => by simp)
      (.inl fun read => by simp [hs])
  | refuse hi hs =>
    exact count_quiet hi (by rw [hs]; rfl) rfl (fun read => by simp)
      (.inl fun read => by simp [hs])
  | drop hi hs =>
    refine count_quiet hi ?_ rfl (fun read => by simp) (.inr rfl)
    rcases hs with hs | ⟨read, hs⟩ <;> rw [hs] <;> rfl
  | @read i job row hi hs hr =>
    refine .read i row rfl ?_ hr ?_
    · have hn := number_set view.rows view.totals (.counting row) hi Stage.counted
      simpa [hs, Stage.counted] using hn
    · intro k read
      rw [counting_set_iff hi]
      constructor
      · rintro (⟨rfl, he⟩ | ⟨-, hc⟩)
        · cases he
          exact .inl ⟨rfl, rfl⟩
        · exact .inr hc
      · rintro (⟨rfl, rfl⟩ | hc)
        · exact .inl ⟨rfl, rfl⟩
        · refine .inr ⟨?_, hc⟩
          rintro rfl
          exact not_counting hi (fun read => by simp [hs]) hc
  | @write i job row hi hs =>
    refine .write i row job.row.overallScore.toInt job.row.language job.row.targetCompany
      ⟨job, hi, hs⟩ rfl ?_ ?_
    · have hn := number_set view.rows (some (Totals.next
        (row.map (·.totals)) job.row.overallScore.toInt job.row.language job.row.targetCompany))
        .finished hi Stage.counted
      simpa [hs, Stage.counted] using hn
    · intro k read
      rw [counting_set_iff hi]
      constructor
      · rintro (⟨-, he⟩ | hc)
        · cases he
        · exact hc
      · exact .inr

end Turns

/-- Whether every stored analysis is there, on top of those that were there before. -/
structure Housed (base : Nat) (view : View) : Prop where
  length : view.rows.length = base + view.number Stage.landed
  mem : ∀ (i : Nat) (job : Job), view.jobs[i]? = some (some job) → job.stage.landed = true →
    Archive.kept job.row ∈ view.rows ∧ 0 ≤ job.row.overallScore.toInt

/-- Whether neither the totals nor any read of them count more than there is to count. -/
structure Bounded (base : Nat) (view : View) : Prop where
  totals : countOf view.totals ≤ base + view.number Stage.counted
  reads : ∀ i read, view.Counting i read →
    countOf (read.map (·.totals)) ≤ base + view.number Stage.counted

/-- Whether an update is lost, or is bound to be. -/
inductive Doomed (base : Nat) (view : View) : Prop
  | stale {i : Nat} {read : Option ProgressRow} (hc : view.Counting i read)
      (hlt : countOf (read.map (·.totals)) < base + view.number Stage.counted)
  | overlap {i k : Nat} {read other : Option ProgressRow} (hne : i ≠ k)
      (hi : view.Counting i read) (hk : view.Counting k other)
  | lost (hlt : countOf view.totals < base + view.number Stage.counted)
      (hall : ∀ i read, view.Counting i read →
        countOf (read.map (·.totals)) < base + view.number Stage.counted)
  | dropped (hd : view.Dropped)

section Overlap

variable {base : Nat} {view after : View}

theorem number_le (view : View) (kind : Stage → Bool) :
    view.number kind ≤ view.number fun _ => true := by
  refine List.countP_mono_left fun job _ hj => ?_
  obtain ⟨job, rfl, -⟩ := (Option.any_eq_true _ _).1 hj
  rfl

/-- A turn is that of a job which was there before. -/
theorem Turn.number_all (ht : view.Turn after) :
    after.number (fun _ => true) = view.number fun _ => true := by
  have hset : ∀ {i : Nat} {job : Job} {stage : Stage} (rows : List AnalysisRow)
      (totals : Option Totals), view.jobs[i]? = some (some job) →
      number ⟨rows, totals, view.jobs.set i (some (job.moved stage))⟩ (fun _ => true) =
        view.number fun _ => true := fun {_ _ stage} rows totals hi => by
    simpa using number_set rows totals stage hi fun _ => true
  cases ht with
  | store hi _ _ | refuse hi _ | read hi _ _ | write hi _ | drop hi _ => exact hset _ _ hi

theorem Fits.turn (h : view.Fits base) (ht : view.Turn after) : after.Fits base := by
  rw [Fits, ht.number_all]
  exact h

/-- What a job adds to the count has a place in it. -/
theorem Fits.countOf_next (h : after.Fits base) {previous : Option Totals}
    (hle : countOf previous ≤ base + view.number Stage.counted)
    (hn : after.number Stage.counted = view.number Stage.counted + 1) (score : Int)
    (language company : String) :
    countOf (some (Totals.next previous score language company)) = countOf previous + 1 := by
  have hall := after.number_le Stage.counted
  rw [Fits] at h
  exact Totals.countOf_next (by omega) score language company

theorem Bounded.count (h : view.Bounded base) (hfits : after.Fits base) (hc : view.Count after) :
    after.Bounded base := by
  cases hc with
  | quiet ht hn hc hk =>
    refine ⟨?_, fun k read hk => ?_⟩
    · rw [ht, hn]
      exact h.totals
    · rw [hn]
      exact h.reads k read (hc k read hk)
  | read i row ht hn hr hc =>
    refine ⟨?_, fun k read hk => ?_⟩
    · rw [ht, hn]
      exact h.totals
    · rw [hn]
      rcases (hc k read).1 hk with ⟨rfl, rfl⟩ | hk
      · rw [hr]
        exact h.totals
      · exact h.reads k read hk
  | write i row score language company hi ht hn hc =>
    refine ⟨?_, fun k read hk => ?_⟩
    · have hle := h.reads i row hi
      rw [ht, hfits.countOf_next hle hn, hn]
      omega
    · have := h.reads k read ((hc k read).1 hk).2
      omega

theorem Dropped.turn (h : view.Dropped) (ht : view.Turn after) : after.Dropped := by
  obtain ⟨k, other, hk, hu⟩ := h
  have hstay : ∀ {i : Nat} {job : Job} {stage : Stage}, view.jobs[i]? = some (some job) →
      job.stage ≠ .uncounted →
      (view.jobs.set i (some (job.moved stage)))[k]? = some (some other) := by
    intro i job stage hi hs
    refine (getElem?_set_iff hi).2 (.inr ⟨?_, hk⟩)
    rintro rfl
    rw [hi] at hk
    cases hk
    exact hs hu
  cases ht with
  | store hi hs hn => exact ⟨k, other, hstay hi (by simp [hs]), hu⟩
  | refuse hi hs => exact ⟨k, other, hstay hi (by simp [hs]), hu⟩
  | read hi hs hr => exact ⟨k, other, hstay hi (by simp [hs]), hu⟩
  | write hi hs => exact ⟨k, other, hstay hi (by simp [hs]), hu⟩
  | drop hi hs =>
    refine ⟨k, other, hstay hi ?_, hu⟩
    rcases hs with hs | ⟨read, hs⟩ <;> simp [hs]

/-- A lost update is not made good again. -/
theorem Doomed.turn (hd : view.Doomed base) (hb : view.Bounded base) (hfits : view.Fits base)
    (ht : view.Turn after) : after.Doomed base := by
  have hfits' := hfits.turn ht
  cases hd with
  | dropped hd => exact .dropped (hd.turn ht)
  | @stale k other hk hlt =>
    cases ht.count with
    | quiet ht hn hc hkeep =>
      rcases hkeep with hkeep | hdrop
      · exact .stale (hkeep k other hk) (by omega)
      · exact .dropped hdrop
    | read i row ht hn hr hc => exact .stale ((hc k other).2 (.inr hk)) (by omega)
    | write i row score language company hi ht hn hc =>
      by_cases hki : k = i
      · -- The stale totals are written, and every other read is older than they are.
        subst hki
        cases hi.unique hk
        refine .lost ?_ fun j read hj => ?_
        · rw [ht, hfits'.countOf_next (hb.reads k other hk) hn, hn]
          omega
        · have := hb.reads j read ((hc j read).1 hj).2
          omega
      · exact .stale ((hc k other).2 ⟨hki, hk⟩) (by omega)
  | @overlap j k read other hne hj hk =>
    cases ht.count with
    | quiet ht hn hc hkeep =>
      rcases hkeep with hkeep | hdrop
      · exact .overlap hne (hkeep j read hj) (hkeep k other hk)
      · exact .dropped hdrop
    | read i row ht hn hr hc =>
      exact .overlap hne ((hc j read).2 (.inr hj)) ((hc k other).2 (.inr hk))
    | write i row score language company hi ht hn hc =>
      -- Whichever of the two does not write is left with an old read.
      have hj' := hb.reads j read hj
      have hk' := hb.reads k other hk
      by_cases hji : j = i
      · exact .stale ((hc k other).2 ⟨fun hki => hne (hji.trans hki.symm), hk⟩) (by omega)
      · exact .stale ((hc j read).2 ⟨hji, hj⟩) (by omega)
  | lost hlt hall =>
    cases ht.count with
    | quiet ht hn hc hkeep =>
      refine .lost (by rw [ht, hn]; exact hlt) fun k read hk => ?_
      have := hall k read (hc k read hk)
      omega
    | read i row ht hn hr hc =>
      refine .lost (by rw [ht, hn]; exact hlt) fun k read hk => ?_
      rw [hn]
      rcases (hc k read).1 hk with ⟨rfl, rfl⟩ | hk
      · rw [hr]
        exact hlt
      · exact hall k read hk
    | write i row score language company hi ht hn hc =>
      have hrow := hall i row hi
      refine .lost ?_ fun k read hk => ?_
      · rw [ht, hfits'.countOf_next (hb.reads i row hi) hn, hn]
        omega
      · have := hall k read ((hc k read).1 hk).2
        omega

end Overlap

/-- Whether all that is counted is counted once, and every read is up to date. -/
structure Orderly (base : Nat) (view : View) : Prop where
  totals : countOf view.totals = base + view.number Stage.counted
  reads : ∀ i read, view.Counting i read → read.map (·.totals) = view.totals

/-- Whether a job whose analysis is stored and not counted has this score. -/
def Pending (view : View) (score : Int) : Prop :=
  ∃ (i : Nat) (job : Job), view.jobs[i]? = some (some job) ∧ job.stage.pending = true ∧
    job.row.overallScore.toInt = score

/-- Whether the best score is that of an analysis and only pending ones may be better. -/
structure Best (view : View) : Prop where
  upper : ∀ row ∈ view.rows, row.overallScore.toInt ≤ (view.totals.getD .start).best ∨
    view.Pending row.overallScore.toInt
  attained : ∀ totals, view.totals = some totals →
    ∃ row ∈ view.rows, row.overallScore.toInt = totals.best

section Order

variable {base : Nat} {view after : View} {i : Nat} {job : Job} {stage : Stage}
  {rows : List AnalysisRow} {totals : Option Totals}

theorem Housed.set (h : view.Housed base) (hi : view.jobs[i]? = some (some job))
    (hs : job.stage.landed = true) (hs' : stage.landed = true) :
    Housed base ⟨view.rows, totals, view.jobs.set i (some (job.moved stage))⟩ := by
  refine ⟨?_, fun k other hk hl => ?_⟩
  · have hn := number_set view.rows totals stage hi Stage.landed
    rw [hs, hs'] at hn
    have hl := h.length
    simp only [if_true] at hn
    show view.rows.length = _
    omega
  · rcases (getElem?_set_iff hi).1 hk with ⟨-, rfl⟩ | ⟨-, hk⟩
    · exact h.mem i job hi hs
    · exact h.mem k other hk hl

theorem Housed.turn (h : view.Housed base) (ht : view.Turn after) : after.Housed base := by
  cases ht with
  | @store i job hi hs hnonneg =>
    refine ⟨?_, fun k other hk hl => ?_⟩
    · have hn := number_set (view.rows ++ [Archive.kept job.row]) view.totals .stored hi
        Stage.landed
      have hl := h.length
      rw [hs] at hn
      simp only [Stage.landed, if_true, Bool.false_eq_true, if_false] at hn
      show (view.rows ++ [_]).length = _
      rw [List.length_append, List.length_singleton]
      omega
    · rcases (getElem?_set_iff hi).1 hk with ⟨-, rfl⟩ | ⟨-, hk⟩
      · exact ⟨List.mem_append_right _ List.mem_cons_self, hnonneg⟩
      · obtain ⟨hm, hn⟩ := h.mem k other hk hl
        exact ⟨List.mem_append_left _ hm, hn⟩
  | @refuse i job hi hs =>
    refine ⟨?_, fun k other hk hl => ?_⟩
    · have hn := number_set view.rows view.totals .refused hi Stage.landed
      have hl := h.length
      rw [hs] at hn
      simp only [Stage.landed, Bool.false_eq_true, if_false] at hn
      show view.rows.length = _
      omega
    · rcases (getElem?_set_iff hi).1 hk with ⟨-, rfl⟩ | ⟨-, hk⟩
      · cases hl
      · exact h.mem k other hk hl
  | read hi hs hr => exact h.set hi (by rw [hs]; rfl) rfl
  | write hi hs => exact h.set hi (by rw [hs]; rfl) rfl
  | drop hi hs =>
    refine h.set hi ?_ rfl
    rcases hs with hs | ⟨read, hs⟩ <;> rw [hs] <;> rfl

theorem Orderly.count (h : view.Orderly base) (he : view.Exclusive) (hfits : after.Fits base)
    (hc : view.Count after) : after.Orderly base := by
  cases hc with
  | quiet ht hn hc hk =>
    refine ⟨?_, fun k read hk => ?_⟩
    · rw [ht, hn]
      exact h.totals
    · rw [ht]
      exact h.reads k read (hc k read hk)
  | read i row ht hn hr hc =>
    refine ⟨?_, fun k read hk => ?_⟩
    · rw [ht, hn]
      exact h.totals
    · rw [ht]
      rcases (hc k read).1 hk with ⟨rfl, rfl⟩ | hk
      · exact hr
      · exact h.reads k read hk
  | write i row score language company hi ht hn hc =>
    refine ⟨?_, fun k read hk => ?_⟩
    · have htotals := h.totals
      rw [ht, h.reads i row hi, hfits.countOf_next (Int.le_of_eq htotals) hn, hn]
      omega
    · obtain ⟨hne, hk⟩ := (hc k read).1 hk
      exact absurd (he k i read row hk hi) hne

theorem Pending.set {score : Int} (h : view.Pending score)
    (hi : view.jobs[i]? = some (some job))
    (hs : stage.pending = true ∨ job.stage.pending = false) :
    Pending ⟨rows, totals, view.jobs.set i (some (job.moved stage))⟩ score := by
  obtain ⟨k, other, hk, hp, hscore⟩ := h
  by_cases hki : k = i
  · subst hki
    rw [hi] at hk
    cases hk
    rcases hs with hs | hs
    · exact ⟨k, job.moved stage, (getElem?_set_iff hi).2 (.inl ⟨rfl, rfl⟩), hs, hscore⟩
    · rw [hs] at hp
      cases hp
  · exact ⟨k, other, (getElem?_set_iff hi).2 (.inr ⟨hki, hk⟩), hp, hscore⟩

theorem Best.set (h : view.Best) (hi : view.jobs[i]? = some (some job))
    (hs : stage.pending = true ∨ job.stage.pending = false) :
    Best ⟨view.rows, view.totals, view.jobs.set i (some (job.moved stage))⟩ := by
  refine ⟨fun row hr => ?_, h.attained⟩
  rcases h.upper row hr with hle | hp
  · exact .inl hle
  · exact .inr (hp.set hi hs)

theorem Best.store (h : view.Best) (hi : view.jobs[i]? = some (some job)) :
    Best ⟨view.rows ++ [Archive.kept job.row], view.totals,
      view.jobs.set i (some (job.moved .stored))⟩ := by
  constructor
  · intro row hr
    rcases List.mem_append.1 hr with hr | hr
    · rcases h.upper row hr with hle | hp
      · exact .inl hle
      · exact .inr (hp.set hi (.inl rfl))
    · rw [List.mem_singleton.1 hr]
      exact .inr ⟨i, job.moved .stored, (getElem?_set_iff hi).2 (.inl ⟨rfl, rfl⟩), rfl, rfl⟩
  · intro totals ht
    obtain ⟨row, hr, he⟩ := h.attained totals ht
    exact ⟨row, List.mem_append_left _ hr, he⟩

theorem Best.write (h : view.Best) (hh : view.Housed base)
    (hi : view.jobs[i]? = some (some job)) (hl : job.stage.landed = true)
    (language company : String) :
    Best ⟨view.rows, some (Totals.next view.totals job.row.overallScore.toInt language company),
      view.jobs.set i (some (job.moved .finished))⟩ := by
  obtain ⟨hm, hn⟩ := hh.mem i job hi hl
  constructor
  · intro row hr
    show row.overallScore.toInt ≤
      max (view.totals.getD .start).best job.row.overallScore.toInt ∨ _
    rcases h.upper row hr with hle | ⟨k, other, hk, hp, hscore⟩
    · exact .inl (Int.le_trans hle (Int.le_max_left _ _))
    · by_cases hki : k = i
      · subst hki
        rw [hi] at hk
        cases hk
        rw [← hscore]
        exact .inl (Int.le_max_right _ _)
      · exact .inr ⟨k, other, (getElem?_set_iff hi).2 (.inr ⟨hki, hk⟩), hp, hscore⟩
  · intro totals ht
    cases ht
    show ∃ row ∈ view.rows, row.overallScore.toInt =
      max (view.totals.getD .start).best job.row.overallScore.toInt
    rcases Int.le_total (view.totals.getD .start).best job.row.overallScore.toInt with hle | hle
    · rw [Int.max_eq_right hle]
      exact ⟨Archive.kept job.row, hm, rfl⟩
    · rw [Int.max_eq_left hle]
      cases hv : view.totals with
      | none =>
        -- Without totals the best score is zero, and so is the score that is counted.
        rw [hv] at hle
        exact ⟨Archive.kept job.row, hm, Int.le_antisymm hle hn⟩
      | some totals => exact h.attained totals hv

theorem Best.turn (h : view.Best) (ho : view.Orderly base) (hh : view.Housed base)
    (ht : view.Turn after) : after.Best := by
  cases ht with
  | store hi hs hn => exact h.store hi
  | refuse hi hs => exact h.set hi (.inr (by rw [hs]; rfl))
  | read hi hs hr => exact h.set hi (.inl rfl)
  | write hi hs =>
    rw [ho.reads _ _ ⟨_, hi, hs⟩]
    exact h.write hh hi (by rw [hs]; rfl) _ _
  | drop hi hs => exact h.set hi (.inl rfl)

end Order

/-- Whether the jobs of the user are all at this stage. -/
def All (stage : Stage) (view : View) : Prop :=
  ∀ (i : Nat) (job : Job), view.jobs[i]? = some (some job) → job.stage = stage

section Ends

variable {base : Nat} {view : View}

theorem All.number_eq {stage : Stage} (h : view.All stage) (kind other : Stage → Bool)
    (hk : kind stage = other stage) : view.number kind = view.number other := by
  unfold number
  refine List.countP_congr fun job hj => ?_
  obtain ⟨i, hi⟩ := List.getElem?_of_mem hj
  cases job with
  | none => simp
  | some job => simp [h i job hi, hk]

theorem All.not_counting {stage : Stage} (h : view.All stage) (hs : ∀ read, stage ≠ .counting read)
    {i : Nat} {read : Option ProgressRow} : ¬ view.Counting i read := by
  rintro ⟨job, hi, hc⟩
  rw [h i job hi] at hc
  exact hs read hc

theorem number_none : view.number (fun _ => false) = 0 := by
  simp [number]

theorem All.number_eq_zero {stage : Stage} (h : view.All stage) {kind : Stage → Bool}
    (hk : kind stage = false) : view.number kind = 0 :=
  (h.number_eq kind _ hk).trans number_none

theorem Tallied.length (h : view.Tallied) : countOf view.totals = view.rows.length := by
  unfold Tallied at h
  cases ht : view.totals with
  | none =>
    rw [ht] at h
    rw [h]
    rfl
  | some totals =>
    rw [ht] at h
    exact h.analyses

theorem Tallied.orderly (h : view.Tallied) (hw : view.All .waiting) :
    view.Orderly view.rows.length := by
  refine ⟨?_, fun i read hc => absurd hc (hw.not_counting fun read => by simp)⟩
  rw [hw.number_eq_zero rfl, h.length]
  simp

theorem Tallied.best (h : view.Tallied) : view.Best := by
  unfold Tallied at h
  cases ht : view.totals with
  | none =>
    rw [ht] at h
    refine ⟨?_, by simp [ht]⟩
    rw [h]
    simp
  | some totals =>
    rw [ht] at h
    obtain ⟨hm, hle⟩ := List.max?_eq_some_iff.1 h.best
    refine ⟨fun row hr => .inl ?_, fun other ho => ?_⟩
    · rw [ht]
      exact hle _ (List.mem_map_of_mem hr)
    · rw [ht] at ho
      cases ho
      obtain ⟨row, hr, he⟩ := List.mem_map.1 hm
      exact ⟨row, hr, he⟩

theorem Tallied.housed (hw : view.All .waiting) : view.Housed view.rows.length := by
  refine ⟨?_, fun i job hi hl => ?_⟩
  · rw [hw.number_eq_zero rfl]
    rfl
  · rw [hw i job hi] at hl
    cases hl

/-- Orderly counting comes to the right totals. -/
theorem Orderly.tallied (ho : view.Orderly base) (hh : view.Housed base) (hb : view.Best)
    (hf : view.All .finished) : view.Tallied := by
  have hlen : countOf view.totals = view.rows.length := by
    rw [ho.totals, hh.length, hf.number_eq Stage.counted Stage.landed rfl]
    simp
  unfold Tallied
  cases ht : view.totals with
  | none =>
    rw [ht] at hlen
    have : (0 : Int) = view.rows.length := hlen
    exact List.eq_nil_of_length_eq_zero (by omega)
  | some totals =>
    rw [ht] at hlen
    refine ⟨hlen, List.max?_eq_some_iff.2 ⟨?_, fun score hs => ?_⟩⟩
    · obtain ⟨row, hr, he⟩ := hb.attained totals ht
      exact List.mem_map.2 ⟨row, hr, he⟩
    · obtain ⟨row, hr, rfl⟩ := List.mem_map.1 hs
      rcases hb.upper row hr with hle | ⟨i, job, hi, hp, -⟩
      · rw [ht] at hle
        exact hle
      · rw [hf i job hi] at hp
        cases hp

/-- An update that is bound to be lost is lost in the end. -/
theorem Doomed.not_tallied (hd : view.Doomed base) (hh : view.Housed base)
    (hf : view.All .finished) : ¬ view.Tallied := by
  intro ht
  have hnum := hf.number_eq Stage.counted Stage.landed rfl
  cases hd with
  | stale hc _ => exact hf.not_counting (fun read => by simp) hc
  | overlap _ hi _ => exact hf.not_counting (fun read => by simp) hi
  | lost hlt _ =>
    have hlen := ht.length
    have := hh.length
    omega
  | dropped hd =>
    obtain ⟨i, job, hi, hs⟩ := hd
    rw [hf i job hi] at hs
    cases hs

end Ends

end View

end Appraisal
