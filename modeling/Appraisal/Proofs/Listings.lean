import Appraisal.Proofs.Holdings
import Mathlib.Data.List.Basic
import Mathlib.Data.List.Forall2

/-!
# Lists of analyses

A listing has the newest analyses of a user, and the leaderboard the best of all, each as many as
the limit allows and with none left out that comes before one that is there (`Foremost`). Both can
be given for every archive that requests lead to, since each of its rows is read back as a record
and has its author among the users.
-/

namespace Appraisal

/-- Whether the chosen are the first of all in an order, up to a limit. -/
structure Foremost {α : Type} (ahead : α → α → Prop) (limit : Nat) (all chosen : List α) : Prop where
  length : chosen.length = min limit all.length
  sorted : chosen.Pairwise ahead
  rest : ∃ omitted, (chosen ++ omitted).Perm all ∧ ∀ r ∈ chosen, ∀ s ∈ omitted, ahead r s

section Foremost

variable {α : Type}

theorem foremost_take_mergeSort {le : α → α → Bool}
    (trans : ∀ a b c, le a b = true → le b c = true → le a c = true)
    (total : ∀ a b, (le a b || le b a) = true) (limit : Nat) (all : List α) :
    Foremost (fun a b => le a b = true) limit all ((all.mergeSort le).take limit) := by
  have hsorted : (all.mergeSort le).Pairwise fun a b => le a b = true :=
    List.pairwise_mergeSort trans total all
  have hperm := List.mergeSort_perm all le
  rw [← List.take_append_drop limit (all.mergeSort le)] at hsorted hperm
  obtain ⟨hs, -, hrest⟩ := List.pairwise_append.1 hsorted
  refine ⟨?_, hs, _, hperm, hrest⟩
  rw [List.length_take, List.length_mergeSort]

variable {ahead ahead' : α → α → Prop} {limit : Nat} {all chosen : List α}

theorem Foremost.mem (h : Foremost ahead limit all chosen) {a : α} (ha : a ∈ chosen) : a ∈ all := by
  obtain ⟨omitted, hp, -⟩ := h.rest
  exact hp.subset (List.mem_append_left _ ha)

theorem Foremost.imp (h : Foremost ahead limit all chosen)
    (himp : ∀ r ∈ all, ∀ s ∈ all, ahead r s → ahead' r s) :
    Foremost ahead' limit all chosen := by
  obtain ⟨omitted, hp, hrest⟩ := h.rest
  have hmem : ∀ r ∈ omitted, r ∈ all := fun r hr => hp.subset (List.mem_append_right _ hr)
  refine ⟨h.length, ?_, omitted, hp, ?_⟩
  · exact h.sorted.imp_of_mem fun hr hs => himp _ (h.mem hr) _ (h.mem hs)
  · intro r hr s hs
    exact himp r (h.mem hr) s (hmem s hs) (hrest r hr s hs)

theorem Foremost.nodup_map {β : Type} {f : α → β} (h : Foremost ahead limit all chosen)
    (hall : (all.map f).Nodup) : (chosen.map f).Nodup := by
  obtain ⟨omitted, hp, -⟩ := h.rest
  have hn := (hp.map f).nodup_iff.2 hall
  rw [List.map_append] at hn
  exact hn.of_append_left

end Foremost

section Orders

theorem Instant.le_iff {s t : Instant} :
    s.le t = true ↔ s.seconds < t.seconds ∨ s.seconds = t.seconds ∧ s.nanos ≤ t.nanos := by
  simp only [le, Bool.or_eq_true, Bool.and_eq_true, decide_eq_true_eq, beq_iff_eq]

theorem Instant.le_trans {r s t : Instant} (hrs : r.le s = true) (hst : s.le t = true) :
    r.le t = true := by
  rw [le_iff] at *
  omega

theorem Instant.le_total (s t : Instant) : s.le t = true ∨ t.le s = true := by
  rw [le_iff, le_iff]
  omega

theorem Instant.le_ofMicroseconds_iff {m n : Int} :
    (ofMicroseconds m).le (ofMicroseconds n) = true ↔ m ≤ n := by
  rw [le_iff]
  simp only [ofMicroseconds]
  omega

namespace AnalysisRow

/-- Whether a row is at least as new as another. -/
def NotOlder (r s : AnalysisRow) : Prop := s.createdAt.microseconds ≤ r.createdAt.microseconds

/-- Whether a row has a better score than another, or the same one and is at least as new. -/
def NotWorse (r s : AnalysisRow) : Prop :=
  s.overallScore.toInt < r.overallScore.toInt ∨
    s.overallScore.toInt = r.overallScore.toInt ∧ r.NotOlder s

variable {r s : AnalysisRow}

/-- Rows in the archive have no more than microseconds. -/
theorem newer_iff (hr : r.Written) (hs : s.Written) : Archive.newer r s = true ↔ r.NotOlder s := by
  have hwhole : ∀ row : AnalysisRow, row.Written →
      Instant.ofMicroseconds row.createdAt.microseconds = row.createdAt :=
    fun row h => congrArg AnalysisRow.createdAt h.kept
  rw [Archive.newer, ← hwhole r hr, ← hwhole s hs, Instant.le_ofMicroseconds_iff, NotOlder]

theorem better_iff (hr : r.Written) (hs : s.Written) :
    Archive.better r s = true ↔ r.NotWorse s := by
  rw [Archive.better, NotWorse, Bool.or_eq_true, Bool.and_eq_true, newer_iff hr hs,
    decide_eq_true_eq, Int32.lt_iff_toInt_lt, beq_iff_eq, Int32.toInt_inj]

theorem newer_trans (a b c : AnalysisRow) (hab : Archive.newer a b = true)
    (hbc : Archive.newer b c = true) : Archive.newer a c = true :=
  Instant.le_trans hbc hab

theorem newer_total (a b : AnalysisRow) : (Archive.newer a b || Archive.newer b a) = true := by
  rw [Bool.or_eq_true]
  exact Instant.le_total b.createdAt a.createdAt

theorem better_trans (a b c : AnalysisRow) (hab : Archive.better a b = true)
    (hbc : Archive.better b c = true) : Archive.better a c = true := by
  simp only [Archive.better, Bool.or_eq_true, Bool.and_eq_true, decide_eq_true_eq, beq_iff_eq,
    Int32.lt_iff_toInt_lt, ← Int32.toInt_inj] at *
  rcases hab with hab | ⟨hab, hnab⟩
  · left
    omega
  · rcases hbc with hbc | ⟨hbc, hnbc⟩
    · left
      omega
    · exact .inr ⟨by omega, newer_trans a b c hnab hnbc⟩

theorem better_total (a b : AnalysisRow) : (Archive.better a b || Archive.better b a) = true := by
  have hn := newer_total a b
  simp only [Archive.better, Bool.or_eq_true, Bool.and_eq_true, decide_eq_true_eq, beq_iff_eq,
    Int32.lt_iff_toInt_lt, ← Int32.toInt_inj] at *
  rcases Int.lt_trichotomy a.overallScore.toInt b.overallScore.toInt with h | h | h
  · exact .inr (.inl h)
  · rcases hn with hn | hn
    · exact .inl (.inr ⟨h.symm, hn⟩)
    · exact .inr (.inr ⟨h, hn⟩)
  · exact .inl (.inl h)

end AnalysisRow

end Orders

theorem Json.exists_all? {α β : Type} {read : α → Option β} : ∀ {items : List α},
    (∀ item ∈ items, ∃ value, read item = some value) → ∃ values, all? read items = some values
  | [], _ => ⟨[], rfl⟩
  | item :: items, h => by
    obtain ⟨value, hv⟩ := h item List.mem_cons_self
    obtain ⟨values, hvs⟩ := exists_all? fun other ho => h other (List.mem_cons_of_mem _ ho)
    exact ⟨value :: values, by rw [all?, hv, hvs]; rfl⟩

theorem Record.id_of_ofRow? {row : AnalysisRow} {record : Record}
    (h : ofRow? row = some record) : record.id = row.id := by
  obtain ⟨report, -, h⟩ := Option.bind_eq_some_iff.1 h
  cases h
  rfl

namespace Web

/-- The answer with a list of analyses. -/
def listed (records : List Record) : Response :=
  success [Json.field "analyses" (.array (records.map Record.toJson))]

/-- The answer with a leaderboard. -/
def ranked (entries : List (Record × Option String)) : Response :=
  success [Json.field "leaderboard" (.array (entries.map rankedJson))]

end Web

namespace Archive

/-- Whether a user is the only one with an id. -/
def IsUser (archive : Archive) (id : String) (user : User) : Prop :=
  user ∈ archive.users ∧ ∀ other ∈ archive.users, other.id = id ↔ other = user

/-- Whether these are the newest analyses of a user. -/
def Listing (archive : Archive) (userId : String) (limit : Nat) (records : List Record) : Prop :=
  ∃ rows, Foremost AnalysisRow.NotOlder limit (archive.rowsOf userId) rows ∧
    List.Forall₂ (fun row record => Record.ofRow? row = some record) rows records

/-- Whether these are the best analyses, each once and with the name of its author. -/
structure Board (archive : Archive) (limit : Nat) (entries : List (Record × Option String)) :
    Prop where
  nodup : (entries.map fun entry => entry.1.id).Nodup
  rows : ∃ rows, Foremost AnalysisRow.NotWorse limit archive.analyses rows ∧
    List.Forall₂ (fun row entry => Record.ofRow? row = some entry.1 ∧
      ∃ author, archive.IsUser row.userId author ∧ entry.2 = author.name) rows entries

namespace Intact

variable {archive : Archive} {row : AnalysisRow}

theorem exists_author (h : archive.Intact) (hrow : row ∈ archive.analyses) :
    ∃ author, archive.user? row.userId = some author ∧ archive.IsUser row.userId author := by
  obtain ⟨user, huser, hid⟩ := List.mem_map.1 (h.authored row hrow)
  cases hfind : archive.user? row.userId with
  | none =>
    have hno := List.find?_eq_none.1 hfind user huser
    exact absurd (beq_iff_eq.2 hid) hno
  | some author =>
    have hauthor : author.id = row.userId := by simpa using List.find?_some hfind
    have hmem := List.mem_of_find?_eq_some hfind
    refine ⟨author, rfl, hmem, fun other ho => ⟨fun hother => ?_, fun he => he ▸ hauthor⟩⟩
    exact List.inj_on_of_nodup_map h.users_nodup ho hmem (hother.trans hauthor.symm)

/-- No row is lost for want of its author. -/
theorem filterMap_withAuthor? (h : archive.Intact) {rows : List AnalysisRow}
    (hrows : ∀ row ∈ rows, row ∈ archive.analyses) :
    rows.filterMap archive.withAuthor? =
      rows.map fun row => (row, (archive.user? row.userId).bind (·.name)) := by
  rw [List.filterMap_eq_map_iff_forall_eq_some]
  intro row hrow
  obtain ⟨author, ha, -⟩ := h.exists_author (hrows row hrow)
  rw [withAuthor?, ha]
  rfl

theorem foremost_newest (h : archive.Intact) (userId : String) (limit : Nat) :
    Foremost AnalysisRow.NotOlder limit (archive.rowsOf userId)
      (((archive.rowsOf userId).mergeSort newer).take limit) := by
  have hwritten : ∀ row ∈ archive.rowsOf userId, row.Written :=
    fun row hrow => h.written row (List.mem_of_mem_filter hrow)
  refine (foremost_take_mergeSort AnalysisRow.newer_trans AnalysisRow.newer_total limit _).imp ?_
  intro r hr s hs
  exact (AnalysisRow.newer_iff (hwritten r hr) (hwritten s hs)).1

theorem foremost_best (h : archive.Intact) (limit : Nat) :
    Foremost AnalysisRow.NotWorse limit archive.analyses
      ((archive.analyses.mergeSort better).take limit) := by
  refine (foremost_take_mergeSort AnalysisRow.better_trans AnalysisRow.better_total limit _).imp ?_
  intro r hr s hs
  exact (AnalysisRow.better_iff (h.written r hr) (h.written s hs)).1

theorem listing (h : archive.Intact) {db : Database} (hdb : db.archive = archive)
    (hb : db.broken .listAnalyses = false) {userId : String}
    (hu : '\x00' ∉ userId.toList) (limit : Nat) :
    ∃ records, Web.listing (some db) userId limit = Web.listed records ∧
      archive.Listing userId limit records := by
  have hfirst := h.foremost_newest userId limit
  obtain ⟨records, hr⟩ := Json.exists_all? fun row hrow =>
    (h.written row (List.mem_of_mem_filter (hfirst.mem hrow))).exists_record
  have hread : Web.reading? (some db) (fun db => db.analysesOf userId limit) =
      some (((archive.rowsOf userId).mergeSort newer).take limit) := by
    have hholds : holdsTexts [userId] = true := by simpa [holdsTexts_iff] using hu
    subst hdb
    simp only [Web.reading?, Option.bind_some, Database.analysesOf, Database.run, hb, analysesOf,
      hholds]
    rfl
  refine ⟨records, ?_, _, hfirst, Json.forall₂_of_all? hr⟩
  simp only [Web.listing, hread, Option.bind_some, hr, Web.listed]

theorem bestAnalyses_eq (h : archive.Intact) (limit : Nat) :
    archive.bestAnalyses limit = ((archive.analyses.mergeSort better).take limit).map
      fun row => (row, (archive.user? row.userId).bind (·.name)) := by
  rw [bestAnalyses, h.filterMap_withAuthor? fun row => List.mem_mergeSort.1, List.map_take]

theorem entry_of_ranked? (h : archive.Intact) (hrow : row ∈ archive.analyses)
    {entry : Record × Option String}
    (hr : Web.ranked? (row, (archive.user? row.userId).bind (·.name)) = some entry) :
    Record.ofRow? row = some entry.1 ∧
      ∃ author, archive.IsUser row.userId author ∧ entry.2 = author.name := by
  obtain ⟨record, hrecord, rfl⟩ := Option.map_eq_some_iff.1 hr
  obtain ⟨author, ha, hauthor⟩ := h.exists_author hrow
  refine ⟨hrecord, author, hauthor, ?_⟩
  rw [ha]
  rfl

theorem board (h : archive.Intact) {limit : Nat} {entries : List (Record × Option String)}
    (he : Json.all? Web.ranked? (archive.bestAnalyses limit) = some entries) :
    archive.Board limit entries := by
  have hfirst := h.foremost_best limit
  have hall := Json.forall₂_of_all? he
  rw [h.bestAnalyses_eq, List.forall₂_map_left_iff] at hall
  have hrows := ((List.forall₂_and_left _ _).2 ⟨fun row => hfirst.mem, hall⟩).imp
    fun row entry hr => h.entry_of_ranked? hr.1 hr.2
  refine ⟨?_, _, hfirst, hrows⟩
  have hids : List.Forall₂ Eq (((archive.analyses.mergeSort better).take limit).map (·.id))
      (entries.map fun entry => entry.1.id) := by
    rw [List.forall₂_map_left_iff, List.forall₂_map_right_iff]
    exact hrows.imp fun row entry hr => (Record.id_of_ofRow? hr.1).symm
  rw [List.forall₂_eq_eq_eq] at hids
  rw [← hids]
  exact hfirst.nodup_map h.analyses_nodup

theorem ranking (h : archive.Intact) {db : Database} (hdb : db.archive = archive)
    (hb : db.broken .rankAnalyses = false) (limit : Nat) :
    ∃ entries, Web.ranking (some db) limit = Web.ranked entries ∧
      archive.Board limit entries := by
  obtain ⟨entries, he⟩ : ∃ entries, Json.all? Web.ranked? (archive.bestAnalyses limit) =
      some entries := by
    refine Json.exists_all? fun ranked hranked => ?_
    rw [h.bestAnalyses_eq] at hranked
    obtain ⟨row, hrow, rfl⟩ := List.mem_map.1 hranked
    obtain ⟨record, hr⟩ := (h.written row ((h.foremost_best limit).mem hrow)).exists_record
    exact ⟨_, congrArg (Option.map _) hr⟩
  have hread : Web.reading? (some db) (fun db => db.bestAnalyses limit) =
      some (archive.bestAnalyses limit) := by
    subst hdb
    simp only [Web.reading?, Option.bind_some, Database.bestAnalyses, Database.run, hb]
    rfl
  refine ⟨entries, ?_, h.board he⟩
  simp only [Web.ranking, hread, Option.bind_some, he, Web.ranked]

end Intact

end Archive

namespace Web.Exchange

/-- Whether a request asks for the analyses of a user, of a database that answers. -/
structure Lists (exchange : Exchange) (userId : String) (limitText : Option String) : Prop where
  asked : ∃ query, route? exchange.request = some (.listing query) ∧
    formValue? query "userId" = some (some userId) ∧ formValue? query "limit" = some limitText
  reachable : exchange.reachable = true
  working : exchange.broken .listAnalyses = false

/-- Whether a request asks for the leaderboard, of a database that answers. -/
structure Ranks (exchange : Exchange) (limitText : Option String) : Prop where
  asked : ∃ query, route? exchange.request = some (.ranking query) ∧
    formValue? query "limit" = some limitText
  reachable : exchange.reachable = true
  working : exchange.broken .rankAnalyses = false

variable {exchange : Exchange} {userId : String} {limitText : Option String}

theorem Lists.response_of_blank (h : exchange.Lists userId limitText) (archive : Archive)
    (hb : Text.isBlank userId = true) :
    (exchange.handled archive).response = Problem.missingUser.response := by
  obtain ⟨query, hroute, huser, hlimit⟩ := h.asked
  unfold handled handle
  simp only [hroute, userQuery, huser, hlimit, nonBlank?, Option.filter, hb]
  rfl

theorem Lists.response_of_filled (h : exchange.Lists userId limitText) (archive : Archive)
    (hb : Text.isBlank userId = false) :
    (exchange.handled archive).response =
      Web.listing (some (exchange.upon archive)) userId (limit limitText) := by
  obtain ⟨query, hroute, huser, hlimit⟩ := h.asked
  unfold handled handle
  simp only [hroute, userQuery, huser, hlimit, nonBlank?_some hb,
    database?_of_reachable h.reachable]

theorem Lists.response_of_nul (h : exchange.Lists userId limitText) (archive : Archive)
    (hn : '\x00' ∈ userId.toList) :
    (exchange.handled archive).response = Problem.listFailed.response := by
  have hb : Text.isBlank userId = false := by
    by_contra hb
    exact Text.nul_notMem_of_isBlank (by simpa using hb) hn
  have hholds : Archive.holdsTexts [userId] = false := by
    rw [← Bool.not_eq_true, Archive.holdsTexts_iff]
    simpa using hn
  rw [h.response_of_filled archive hb]
  simp only [upon, Web.listing, reading?, Option.bind_some, Database.analysesOf, Database.run,
    h.working, Archive.analysesOf, hholds]
  rfl

theorem Ranks.response (h : exchange.Ranks limitText) (archive : Archive) :
    (exchange.handled archive).response =
      Web.ranking (some (exchange.upon archive)) (limit limitText) := by
  obtain ⟨query, hroute, hlimit⟩ := h.asked
  unfold handled handle
  simp only [hroute, rankingQuery, hlimit, database?_of_reachable h.reachable]

/-- After any requests, a listing has the newest analyses of its user, and the leaderboard the best
of all. A listing is refused for a user whose id is blank or cannot be held. -/
theorem foremost_run (earlier : List Exchange) :
    (∀ {exchange : Exchange} {userId : String} {limitText : Option String},
      exchange.Lists userId limitText →
        (Text.isBlank userId = false → '\x00' ∉ userId.toList →
          ∃ records, (exchange.handled (run .empty earlier)).response = listed records ∧
            (run .empty earlier).Listing userId (limit limitText) records) ∧
        (Text.isBlank userId = true →
          (exchange.handled (run .empty earlier)).response = Problem.missingUser.response) ∧
        ('\x00' ∈ userId.toList →
          (exchange.handled (run .empty earlier)).response = Problem.listFailed.response)) ∧
    ∀ {exchange : Exchange} {limitText : Option String}, exchange.Ranks limitText →
      ∃ entries, (exchange.handled (run .empty earlier)).response = ranked entries ∧
        (run .empty earlier).Board (limit limitText) entries := by
  have hintact : (run .empty earlier).Intact := intact_run earlier Archive.intact_empty
  constructor
  · intro exchange userId limitText h
    refine ⟨fun hb hn => ?_, h.response_of_blank _, h.response_of_nul _⟩
    rw [h.response_of_filled _ hb]
    exact hintact.listing rfl h.working hn _
  · intro exchange limitText h
    rw [h.response]
    exact hintact.ranking rfl h.working _

/-- A request to read something, of a database that answers. -/
def asking (address : String) : Exchange :=
  { trial none with request := ⟨"GET", address, none, none⟩ }

theorem foremost_run_trial :
    (∃ records, ((asking "/api/user/analyses?userId=ada&limit=1").handled
        (run .empty [trial none])).response = listed records ∧ records.length = 1) ∧
      ∃ entries, ((asking "/api/leaderboard?limit=1").handled (run .empty [trial none])).response =
        ranked entries ∧ entries.length = 1 := by
  have hl : (asking "/api/user/analyses?userId=ada&limit=1").Lists "ada" (some "1") :=
    ⟨⟨[("userId", "ada"), ("limit", "1")], by decide +kernel, by decide, by decide⟩, rfl, rfl⟩
  have hr : (asking "/api/leaderboard?limit=1").Ranks (some "1") :=
    ⟨⟨[("limit", "1")], by decide +kernel, by decide⟩, rfl, rfl⟩
  have hlimit : limit (some "1") = 1 := by decide +kernel
  obtain ⟨submission, ht, huser⟩ := takes_trial
  have hrow : Archive.kept ((trial none).row submission) ∈ (run .empty [trial none]).analyses := by
    rw [run, List.foldl_cons, List.foldl_nil, ht.analyses_after]
    exact List.mem_append_right _ List.mem_cons_self
  obtain ⟨hlists, hranks⟩ := foremost_run [trial none]
  obtain ⟨records, hrecords, rows, hfirst, hall⟩ := (hlists hl).1 (by decide) (by decide)
  obtain ⟨entries, hentries, hboard⟩ := hranks hr
  obtain ⟨best, hbest, hentry⟩ := hboard.rows
  have hmem : Archive.kept ((trial none).row submission) ∈
      (run .empty [trial none]).rowsOf "ada" :=
    List.mem_filter.2 ⟨hrow, beq_iff_eq.2 huser⟩
  have hsome := List.length_pos_of_mem hmem
  have hsome' := List.length_pos_of_mem hrow
  have hlength := hfirst.length
  have hlength' := hbest.length
  rw [hlimit] at hlength hlength'
  refine ⟨⟨records, hrecords, ?_⟩, entries, hentries, ?_⟩
  · rw [← hall.length_eq, hlength]
    omega
  · rw [← hentry.length_eq, hlength']
    omega

/-- For a blank id of a user, and for one that cannot be held, there is no listing, not even an
empty one. -/
theorem refused_of_userId :
    (asking "/api/user/analyses?userId=%20").Lists " " none ∧
      (asking "/api/user/analyses?userId=%00").Lists "\x00" none ∧
      ∀ records, ((asking "/api/user/analyses?userId=%20").handled .empty).response ≠
          listed records ∧
        ((asking "/api/user/analyses?userId=%00").handled .empty).response ≠ listed records := by
  have hblank : (asking "/api/user/analyses?userId=%20").Lists " " none :=
    ⟨⟨[("userId", " ")], by decide +kernel, by decide, by decide⟩, rfl, rfl⟩
  have hnul : (asking "/api/user/analyses?userId=%00").Lists "\x00" none :=
    ⟨⟨[("userId", "\x00")], by decide +kernel, by decide, by decide⟩, rfl, rfl⟩
  refine ⟨hblank, hnul, fun records => ⟨fun h => ?_, fun h => ?_⟩⟩
  · rw [hblank.response_of_blank .empty (by decide)] at h
    cases congrArg Response.status h
  · rw [hnul.response_of_nul .empty (by decide)] at h
    cases congrArg Response.status h

end Web.Exchange

end Appraisal
