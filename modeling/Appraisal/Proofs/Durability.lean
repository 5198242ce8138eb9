import Appraisal.Proofs.Listings

/-!
# Stored analyses last

What a submission is answered with is what every later request reads, whatever comes in between
(`durable_run`): the answer is made from the record in memory and a later one from the stored row,
and the two differ only in the time, of which the archive keeps the microseconds. An id that no
answer has given is not found, as long as no user has more submissions than a count can hold.
-/

namespace Appraisal

/-- A record as it is read back: its time has no more than microseconds. -/
def Record.readBack (record : Record) (now : Instant) : Record :=
  { record with createdAt := (Instant.ofMicroseconds now.microseconds).text }

theorem Json.exists_of_all? {α β : Type} {read : α → Option β} {items : List α} {values : List β}
    (h : all? read items = some values) {value : β} (hv : value ∈ values) :
    ∃ item ∈ items, read item = some value := by
  rw [← filterMap_of_all? h] at hv
  exact List.mem_filterMap.1 hv

namespace Archive

variable {archive : Archive} {row : AnalysisRow} {record other : Record}

/-- Whether a record is that of a row. -/
def Holds (archive : Archive) (record : Record) : Prop :=
  ∃ row ∈ archive.analyses, Record.ofRow? row = some record

/-- Records with one id are the same. -/
theorem Holds.eq_of_id (hr : archive.Holds record) (hi : archive.Intact) (ho : archive.Holds other)
    (hid : other.id = record.id) : other = record := by
  obtain ⟨row, hrow, hr⟩ := hr
  obtain ⟨row', hrow', ho⟩ := ho
  have he : row' = row := hi.eq_of_id hrow' hrow
    ((Record.id_of_ofRow? ho).symm.trans (hid.trans (Record.id_of_ofRow? hr)))
  rw [he, hr] at ho
  exact (Option.some.inj ho).symm

theorem mem_of_analysesOf {userId : String} {limit : Nat} {rows : List AnalysisRow}
    (h : archive.analysesOf userId limit = .ok rows) (hrow : row ∈ rows) :
    row ∈ archive.analyses := by
  unfold analysesOf at h
  split_ifs at h
  cases h
  exact List.mem_of_mem_filter (List.mem_mergeSort.1 (List.mem_of_mem_take hrow))

theorem mem_of_bestAnalyses {limit : Nat} {name : Option String}
    (h : (row, name) ∈ archive.bestAnalyses limit) : row ∈ archive.analyses := by
  obtain ⟨other, ho, hname⟩ := List.mem_filterMap.1 (List.mem_of_mem_take h)
  obtain ⟨author, -, he⟩ := Option.map_eq_some_iff.1 hname
  cases he
  exact List.mem_mergeSort.1 ho

end Archive

namespace Web

/-- The answer with one analysis. -/
def shown (record : Record) : Response := success [Json.field "analysis" record.toJson]

theorem reading?_eq_some {database : Option Database} {α : Type}
    {read : Database → Except ArchiveError α} {value : α}
    (h : reading? database read = some value) :
    ∃ db, database = some db ∧ read db = .ok value := by
  obtain ⟨db, hdb, hv⟩ := Option.bind_eq_some_iff.1 h
  refine ⟨db, hdb, ?_⟩
  cases hr : read db with
  | error e =>
    rw [hr] at hv
    cases hv
  | ok read =>
    rw [hr] at hv
    cases hv
    rfl

theorem listed_of_status {database : Option Database} {userId : String} {limit : Nat}
    (h : (listing database userId limit).status = 200) :
    ∃ records, listing database userId limit = listed records ∧
      ∀ record ∈ records, ∃ db, database = some db ∧ db.archive.Holds record := by
  unfold listing at h ⊢
  split at h
  · next records hrecords =>
    refine ⟨records, rfl, fun record hrecord => ?_⟩
    obtain ⟨rows, hread, hall⟩ := Option.bind_eq_some_iff.1 hrecords
    obtain ⟨db, hdb, hrows⟩ := reading?_eq_some hread
    obtain ⟨row, hrow, hr⟩ := Json.exists_of_all? hall hrecord
    exact ⟨db, hdb, row, Archive.mem_of_analysesOf (Database.run_eq_ok_iff.1 hrows).2 hrow, hr⟩
  · cases h

theorem ranked_of_status {database : Option Database} {limit : Nat}
    (h : (ranking database limit).status = 200) :
    ∃ entries, ranking database limit = ranked entries ∧
      ∀ entry ∈ entries, ∃ db, database = some db ∧ db.archive.Holds entry.1 := by
  unfold ranking at h ⊢
  split at h
  · next entries hentries =>
    refine ⟨entries, rfl, fun entry hentry => ?_⟩
    obtain ⟨rows, hread, hall⟩ := Option.bind_eq_some_iff.1 hentries
    obtain ⟨db, hdb, hrows⟩ := reading?_eq_some hread
    obtain ⟨⟨row, name⟩, hrow, hr⟩ := Json.exists_of_all? hall hentry
    obtain ⟨record, hrecord, rfl⟩ := Option.map_eq_some_iff.1 hr
    cases (Database.run_eq_ok_iff.1 hrows).2
    exact ⟨db, hdb, row, Archive.mem_of_bestAnalyses hrow, hrecord⟩
  · cases h

namespace Exchange

/-- Whether a request asks for the analysis with an id, of a database that answers. -/
structure Looks (exchange : Exchange) (id : String) : Prop where
  route : route? exchange.request = some (.lookup id)
  reachable : exchange.reachable = true
  working : exchange.broken .findAnalysis = false

/-- Whether every answer that has the analysis with the id of a record has this record. -/
structure Shows (archive : Archive) (record : Record) : Prop where
  lookup : ∀ {exchange : Exchange}, exchange.Looks record.id →
    (exchange.handled archive).response = shown record
  listing : ∀ {exchange : Exchange} {query : List (String × String)},
    route? exchange.request = some (.listing query) →
    (exchange.handled archive).response.status = 200 →
    ∃ records, (exchange.handled archive).response = listed records ∧
      ∀ other ∈ records, other.id = record.id → other = record
  ranking : ∀ {exchange : Exchange} {query : List (String × String)},
    route? exchange.request = some (.ranking query) →
    (exchange.handled archive).response.status = 200 →
    ∃ entries, (exchange.handled archive).response = ranked entries ∧
      ∀ entry ∈ entries, entry.1.id = record.id → entry.1 = record

variable {exchange : Exchange} {archive : Archive} {id : String}

theorem Looks.response (h : exchange.Looks id) (archive : Archive) :
    (exchange.handled archive).response =
      Web.lookup (some (exchange.upon archive)) id := by
  unfold handled handle
  simp only [h.route, database?_of_reachable h.reachable]

theorem Looks.response_eq (h : exchange.Looks id) (archive : Archive)
    (hid : Archive.holdsTexts [id] = true) :
    (exchange.handled archive).response =
      match archive.analyses.find? fun row => row.id == id with
      | some row => ((Record.ofRow? row).map shown).getD Problem.lookupFailed.response
      | none => Problem.notFound.response := by
  rw [h.response]
  simp only [upon, Web.lookup, reading?, Option.bind_some, Database.analysis?, Database.run,
    h.working, Archive.analysis?, hid]
  cases archive.analyses.find? fun row => row.id == id with
  | none => rfl
  | some row => cases hr : Record.ofRow? row <;> simp [Except.toOption, hr, shown]

theorem Looks.response_of_nul (h : exchange.Looks id) (archive : Archive)
    (hid : '\x00' ∈ id.toList) :
    (exchange.handled archive).response = Problem.lookupFailed.response := by
  have hholds : Archive.holdsTexts [id] = false := by
    rw [← Bool.not_eq_true, Archive.holdsTexts_iff]
    simpa using hid
  rw [h.response]
  simp only [upon, Web.lookup, reading?, Option.bind_some, Database.analysis?, Database.run,
    h.working, Archive.analysis?, hholds]
  rfl

theorem Looks.response_of_holds (h : exchange.Looks id) (hi : archive.Intact)
    {record : Record} (hr : archive.Holds record) (hid : record.id = id)
    (hholds : Archive.holdsTexts [id] = true) :
    (exchange.handled archive).response = shown record := by
  obtain ⟨row, hrow, hr⟩ := hr
  rw [Record.id_of_ofRow? hr] at hid
  rw [h.response_eq archive hholds]
  cases hf : archive.analyses.find? fun other => other.id == id with
  | none =>
    have hno := List.find?_eq_none.1 hf row hrow
    exact absurd (beq_iff_eq.2 hid) hno
  | some other =>
    have hother : other.id = id := by simpa using List.find?_some hf
    rw [hi.eq_of_id (List.mem_of_find?_eq_some hf) hrow (hother.trans hid.symm)]
    simp [hr]

theorem Looks.response_of_absent (h : exchange.Looks id)
    (hno : ∀ row ∈ archive.analyses, row.id ≠ id) (hholds : Archive.holdsTexts [id] = true) :
    (exchange.handled archive).response = Problem.notFound.response := by
  have hf : (archive.analyses.find? fun row => row.id == id) = none := by
    simpa using hno
  rw [h.response_eq archive hholds, hf]

theorem archive_of_database? {db : Database} (h : exchange.database? archive = some db) :
    db.archive = archive := by
  have harchive := exchange.archive_database? archive
  rw [h] at harchive
  exact harchive

theorem shows_of_holds (hi : archive.Intact) {record : Record} (hr : archive.Holds record)
    (hholds : Archive.holdsTexts [record.id] = true) : Shows archive record := by
  refine ⟨fun h => h.response_of_holds hi hr rfl hholds, ?_, ?_⟩
  · intro exchange query hroute hs
    have hresponse : (exchange.handled archive).response =
        userQuery (exchange.database? archive) query := by
      unfold handled handle
      rw [hroute]
    rw [hresponse] at hs ⊢
    unfold userQuery at hs ⊢
    split at hs
    · split at hs
      · obtain ⟨records, hl, hmem⟩ := listed_of_status hs
        refine ⟨records, hl, fun other ho hid => ?_⟩
        obtain ⟨db, hdb, hother⟩ := hmem other ho
        rw [archive_of_database? hdb] at hother
        exact hr.eq_of_id hi hother hid
      · cases hs
    · cases hs
  · intro exchange query hroute hs
    have hresponse : (exchange.handled archive).response =
        rankingQuery (exchange.database? archive) query := by
      unfold handled handle
      rw [hroute]
    rw [hresponse] at hs ⊢
    unfold rankingQuery at hs ⊢
    split at hs
    · obtain ⟨entries, hl, hmem⟩ := ranked_of_status hs
      refine ⟨entries, hl, fun entry he hid => ?_⟩
      obtain ⟨db, hdb, hother⟩ := hmem entry he
      rw [archive_of_database? hdb] at hother
      exact hr.eq_of_id hi hother hid
    · cases hs

/-- Whether a record has what a request posts, and repeats what its own report says. -/
structure Posted (post : Exchange) (record : Record) : Prop where
  id : record.id = post.stamp.analysisId
  createdAt : record.createdAt = post.stamp.now.text
  body : ∃ draft, draft? post.request = some draft ∧ draft.code = some record.code ∧
    draft.targetCompany = some record.targetCompany ∧ draft.userId = some record.userId
  score : record.overallScore.toInt = record.report.overallScore.toNat
  time : record.timeComplexity = record.report.timeComplexity
  space : record.spaceComplexity = record.report.spaceComplexity

theorem Takes.posted {submission : Submission} (h : exchange.Takes archive submission) :
    exchange.Posted ((exchange.fresh submission).record exchange.stamp) where
  id := rfl
  createdAt := rfl
  body := by
    obtain ⟨draft, hd, hg⟩ := gives_of_submission? h.sent
    exact ⟨draft, hd, hg.code, hg.company, hg.user⟩
  score := Archive.toInt_overallScore_row (exchange.fresh submission) exchange.stamp
  time := rfl
  space := rfl

theorem Takes.shows {submission : Submission} (h : exchange.Takes archive submission)
    (hi : archive.Intact) (later : List Exchange) :
    Shows (run (exchange.after archive) later)
      (((exchange.fresh submission).record exchange.stamp).readBack exchange.stamp.now) := by
  have hrow : Archive.kept (exchange.row submission) ∈
      (run (exchange.after archive) later).analyses :=
    (analyses_prefix_run later _).subset
      (h.analyses_after ▸ List.mem_append_right _ List.mem_cons_self)
  refine shows_of_holds (intact_run later (exchange.intact_after hi)) ⟨_, hrow, ?_⟩ ?_
  · exact Record.ofRow?_row (exchange.fresh submission) exchange.stamp.kept
  · show Archive.holdsTexts [exchange.stamp.analysisId] = true
    exact h.admits.holds List.mem_cons_self

/-- After any requests, what was answered to a submission is what is read of it, up to the
microsecond of its time, and an id that no answer has given is not found, if every user has fewer
submissions than a count can hold. -/
theorem durable_run (exchanges : List Exchange) :
    (∀ {earlier later : List Exchange} {post : Exchange}, exchanges = earlier ++ post :: later →
      route? post.request = some .submit →
      (post.handled (run .empty earlier)).response.status = 200 →
      ∃ record source, (post.handled (run .empty earlier)).response = saved record source ∧
        post.Posted record ∧ Shows (run .empty exchanges) (record.readBack post.stamp.now)) ∧
    ((∀ userId, submissions exchanges userId < 2 ^ 31) →
      ∀ {id : String}, (∀ record, Saves .empty exchanges record → record.id ≠ id) →
      ∀ {exchange : Exchange}, exchange.Looks id →
        ('\x00' ∉ id.toList →
          (exchange.handled (run .empty exchanges)).response = Problem.notFound.response) ∧
        ('\x00' ∈ id.toList →
          (exchange.handled (run .empty exchanges)).response =
            Problem.lookupFailed.response)) := by
  constructor
  · rintro earlier later post rfl hroute hs
    obtain ⟨submission, ht⟩ := takes_of_status hroute hs
    refine ⟨_, _, (ht.stores_of_status hs).response, ht.posted, ?_⟩
    rw [run_append]
    exact ht.shows (intact_run earlier Archive.intact_empty) later
  · intro hcount id hno exchange h
    refine ⟨fun hid => h.response_of_absent ?_ ?_, fun hid => h.response_of_nul _ hid⟩
    · intro row hrow he
      rcases saves_of_mem_run exchanges (roomy_empty hcount) hrow with
        hrow | ⟨record, hrecord, hsame⟩
      · cases hrow
      · exact hno record hrecord (hsame.trans he)
    · simpa [Archive.holdsTexts_iff] using hid

theorem looks_asking {address id : String}
    (h : route? (asking address).request = some (.lookup id)) : (asking address).Looks id :=
  ⟨h, rfl, rfl⟩

theorem durable_run_trial :
    (∃ record source, ((trial none).handled .empty).response = saved record source ∧
      ((asking "/api/analysis/a").handled
        (run .empty [trial none, asking "/api/leaderboard"])).response =
          shown (record.readBack firstStamp.now)) ∧
      ((asking "/api/analysis/b").handled (run .empty [])).response =
        Problem.notFound.response := by
  constructor
  · obtain ⟨submission, ht, -⟩ := takes_trial
    have hstatus : ((trial none).handled (run .empty [])).response.status = 200 := by
      rw [run, List.foldl_nil, (ht.stores ((ready_trial none).room _)).response]
      rfl
    have hroute : route? (trial none).request = some .submit := route?_posted _
    obtain ⟨record, source, hr, hp, hshows⟩ :=
      (durable_run [trial none, asking "/api/leaderboard"]).1
        (show _ = [] ++ trial none :: [asking "/api/leaderboard"] from rfl) hroute hstatus
    refine ⟨record, source, hr, hshows.lookup ?_⟩
    have hid : (record.readBack firstStamp.now).id = "a" := hp.id
    rw [show (trial none).stamp = firstStamp from rfl, hid]
    exact looks_asking (by decide +kernel)
  · have hlooks : (asking "/api/analysis/b").Looks "b" := looks_asking (by decide +kernel)
    refine ((durable_run []).2 (fun _ => Nat.two_pow_pos 31) ?_ hlooks).1 (by decide)
    rintro record ⟨earlier, post, later, source, he, -⟩
    simp at he

/-- The id that is the character with the number zero was never given, and still it is not answered
as one that is not found. -/
theorem lookup_failed_of_nul :
    (asking "/api/analysis/%00").Looks "\x00" ∧ (∀ record, ¬ Saves .empty [] record) ∧
      ((asking "/api/analysis/%00").handled (run .empty [])).response ≠
        Problem.notFound.response := by
  have hlooks : (asking "/api/analysis/%00").Looks "\x00" := looks_asking (by decide +kernel)
  refine ⟨hlooks, ?_, fun h => ?_⟩
  · rintro record ⟨earlier, post, later, source, he, -⟩
    simp at he
  · rw [hlooks.response_of_nul _ (by decide)] at h
    cases congrArg Response.status h

end Exchange

end Web

end Appraisal
