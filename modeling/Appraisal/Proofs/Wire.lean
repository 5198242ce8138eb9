import Appraisal.CommandLine.Run
import Appraisal.Proofs.Consultation
import Appraisal.Proofs.Formats
import Appraisal.Web.Server

/-!
# Messages between a client and a server

The two sides declare their messages each for itself, and they agree: what a client posts arrives as
the submission that it means (`submission_of_encode`), and of what a server answers the client
takes the fields that it knows (`receipt_of_saved`, `entries_of_ranking`). A language goes over as
its tag and is read from it again, which works because every language that a client resolves is read
from its own tag (`portable_of_languageOf?`).
-/

namespace Appraisal

namespace Text

theorem exists_not_isSpace {text : String} (h : isBlank text = false) :
    ∃ c rest, trim text.toList = c :: rest ∧ isSpace c = false := by
  cases ht : trim text.toList with
  | nil =>
    rw [(isBlank_iff_trim_eq_nil text).2 ht] at h
    cases h
  | cons c rest => exact ⟨c, rest, rfl, head?_trim text.toList c (by rw [ht]; rfl)⟩

theorem isBlank_ofList_cons {c : Char} (h : isSpace c = false) (rest : List Char) :
    isBlank (String.ofList (c :: rest)) = false := by
  simp [isBlank, h]

theorem isBlank_trimmed {text : String} (h : isBlank text = false) :
    isBlank (trimmed text) = false := by
  obtain ⟨c, rest, ht, hc⟩ := exists_not_isSpace h
  rw [trimmed, ht]
  exact isBlank_ofList_cons hc rest

theorem isBlank_normalName {name : String} (h : isBlank name = false) :
    isBlank (normalName name) = false := by
  obtain ⟨c, rest, ht, hc⟩ := exists_not_isSpace h
  have hhead : ∀ d ∈ (lowerFrom [] (c :: rest)).head?, isSpace d = false :=
    head?_lowerFrom (by simpa using hc)
  rw [normalName, trimmed, ht, lowered, String.toList_ofList, lower]
  cases hl : lowerFrom [] (c :: rest) with
  | nil => exact absurd hl (lowerFrom_ne_nil [] c rest)
  | cons d more =>
    rw [hl] at hhead
    exact isBlank_ofList_cons (hhead d rfl) more

end Text

section Languages

/-- Whether a language can go over as its tag: the tag is not blank and declares the language. -/
structure Language.Portable (language : Language) : Prop where
  filled : Text.isBlank language.tag = false
  parse_tag : Language.parse language.tag = language

theorem Language.portable_parse {name : String} (h : Text.isBlank name = false) :
    (Language.parse name).Portable := by
  refine ⟨?_, parse_tag_parse name⟩
  rw [parse, tag_ofTag]
  exact Text.isBlank_normalName h

theorem Language.portable_of_known {language : Language} (h : language ∈ known) :
    language.Portable := by
  have hall : ∀ language ∈ known,
      Text.isBlank language.tag = false ∧ parse language.tag = language := by
    decide +kernel
  exact ⟨(hall language h).1, (hall language h).2⟩

theorem Path.known_of_extension : ∀ entry ∈ extensions, entry.2 ∈ Language.known := by
  decide

/-- The language that a file is assessed in can go over as its tag. -/
theorem Path.portable_of_languageOf? {named : Option String} {path : String} {language : Language}
    (h : languageOf? named path = some language) : language.Portable := by
  unfold languageOf? at h
  split at h
  · next name hname =>
    obtain rfl : Language.parse name = language := Option.some.inj h
    exact Language.portable_parse (by simpa using (Option.filter_eq_some_iff.1 hname).2)
  · obtain ⟨extension, -, he⟩ := Option.bind_eq_some_iff.1 h
    obtain ⟨entry, hentry, rfl⟩ := Option.map_eq_some_iff.1 he
    exact Language.portable_of_known (known_of_extension entry (List.mem_of_find?_eq_some hentry))

end Languages

section Submissions

theorem Json.optional_some_text (content : String) :
    Json.optional Json.asText? (some (.text content)) = some (some content) := rfl

theorem nonBlank?_some {text : String} (h : Text.isBlank text = false) :
    nonBlank? (some text) = some text := by
  simp [nonBlank?, h]

/-- What arrives of a posting. -/
def Posting.draft (posting : Posting) : Draft :=
  ⟨some posting.code, some posting.language, some posting.targetCompany, some posting.userId,
    posting.title⟩

theorem Draft.ofJson?_posting (posting : Posting) :
    Draft.ofJson? posting.toJson = some posting.draft := by
  simp only [Draft.ofJson?, Posting.record?_toJson, Json.present_bind, Option.pure_def,
    Json.optional_some_text, Posting.optional_title, Posting.draft]

theorem Posting.submission?_draft {posting : Posting} {language : Language}
    (hl : posting.language = language.tag) (hp : language.Portable)
    (hcode : Text.isBlank posting.code = false)
    (hcompany : Text.isBlank posting.targetCompany = false)
    (huser : Text.isBlank posting.userId = false) :
    posting.draft.submission? = some ⟨posting.code, language, posting.targetCompany,
      posting.userId, (nonBlank? posting.title).getD (language.tag ++ " Analysis")⟩ := by
  have htag := nonBlank?_some hp.filled
  simp only [Draft.submission?, draft, nonBlank?_some hcode, hl, htag, nonBlank?_some hcompany,
    nonBlank?_some huser, Json.present_bind, hp.parse_tag, Draft.defaultTitle, Option.pure_def]

/-- What a client posts arrives as the submission that it means. -/
theorem Posting.submission_of_encode {posting : Posting} {language : Language}
    (hl : posting.language = language.tag) (hp : language.Portable)
    (hcode : Text.isBlank posting.code = false)
    (hcompany : Text.isBlank posting.targetCompany = false)
    (huser : Text.isBlank posting.userId = false) :
    ((Json.parse? posting.toJson.encode.toList).bind Draft.ofJson?).bind Draft.submission? =
      some ⟨posting.code, language, posting.targetCompany, posting.userId,
        (nonBlank? posting.title).getD (language.tag ++ " Analysis")⟩ := by
  rw [Json.parse?_compact posting.wellFormed_toJson, Option.bind_some, Draft.ofJson?_posting,
    Option.bind_some, submission?_draft hl hp hcode hcompany huser]

end Submissions

section Answers

theorem Json.all?_map_to {α β γ : Type} {read : β → Option γ} {write : α → β} {value : α → γ}
    (h : ∀ a, read (write a) = some (value a)) : ∀ items : List α,
    all? read (items.map write) = some (items.map value)
  | [] => rfl
  | item :: items => by
    rw [List.map_cons, all?, h, all?_map_to h items]
    rfl

/-- What a client takes of a record. -/
def Record.summary (record : Record) : AnalysisSummary where
  id := record.id
  title := record.title
  language := record.language
  targetCompany := record.targetCompany
  overallScore := record.overallScore
  report := record.report
  createdAt := record.createdAt

theorem Record.record?_toJson (record : Record) :
    Json.record? AnalysisSummary.keys record.toJson =
      some [some (.text record.id), some (.text record.title), some (.text record.language),
        some (.text record.targetCompany), some (.int record.overallScore.toInt),
        some record.report.toJson, some (.text record.createdAt)] := rfl

theorem AnalysisSummary.ofJson?_record (record : Record) :
    ofJson? record.toJson = some record.summary := by
  simp only [ofJson?, record.record?_toJson, Json.present_bind, Option.pure_def,
    Json.required_some, Json.asText?_text, Json.asInt32?_int, Report.ofJson?_toJson,
    Record.summary]

theorem RankedAnalysis.ofJson?_rankedJson (entry : Record × Option String) :
    ofJson? (Web.rankedJson entry) = some ⟨entry.1.summary, entry.2⟩ := by
  have h : Json.record? ["analysis", "userName"] (Web.rankedJson entry) =
      some [some entry.1.toJson, some (.text? entry.2)] := rfl
  simp only [ofJson?, h, Json.present_bind, Option.pure_def, Json.required_some,
    AnalysisSummary.ofJson?_record, Json.optional_text?]

end Answers

namespace Web

/-- How a posting arrives at a server. -/
def posted (body : String) : Request :=
  ⟨"POST", "/api/analyze", some "application/json", some body.toUTF8⟩

theorem route?_posted (body : String) : route? (posted body) = some .submit := by
  have h : route? (posted "") = some .submit := by decide +kernel
  exact h

theorem jsonBody?_posted (body : String) : jsonBody? (posted body) = some body.toUTF8 := by
  have htype : isJsonType "application/json" = true := by decide +kernel
  simp only [jsonBody?, posted, Json.present_bind, htype, if_true]

theorem isOverlong_posted (body : String) :
    isOverlong (posted body) = decide (bodyLimit < body.toUTF8.size) := by
  rw [isOverlong, jsonBody?_posted, Option.any_some]

/-- A body that is not too long is read as the text that was posted. -/
theorem bodyDocument?_posted {body : String} (h : body.toUTF8.size ≤ bodyLimit) :
    bodyDocument? (posted body) = Json.parse? body.toList := by
  have hshort : isOverlong (posted body) = false := by
    rw [isOverlong_posted, decide_eq_false (Nat.not_lt.2 h)]
  rw [bodyDocument?, hshort, jsonBody?_posted, Option.bind_some, Json.ofBytes?_toUTF8]
  rfl

theorem draft?_posted {posting : Posting} (h : posting.toJson.encode.toUTF8.size ≤ bodyLimit) :
    draft? (posted posting.toJson.encode) = some posting.draft := by
  rw [draft?, bodyDocument?_posted h, Json.parse?_compact posting.wellFormed_toJson,
    Option.bind_some, Draft.ofJson?_posting]

/-- A body that is too long is refused before it is read. -/
theorem draft?_of_overlong {body : String} (h : bodyLimit < body.toUTF8.size) :
    draft? (posted body) = none ∧ refusalStatus (posted body) = 413 := by
  have hlong : isOverlong (posted body) = true := by
    rw [isOverlong_posted, decide_eq_true h]
  rw [draft?, bodyDocument?, refusalStatus, hlong]
  exact ⟨rfl, rfl⟩

theorem wellFormed_rankedJson (entry : Record × Option String) :
    (rankedJson entry).WellFormed :=
  Json.wellFormed_object (by simp [Json.field, Record.wellFormed_toJson])

/-- The text of an answer, empty when the answer has no body. -/
def Response.text (response : Response) : String := (response.body.map Json.encode).getD ""

/-- A successful answer is read as the object that it is. -/
theorem parse?_success {fields : List (Option String × Json)}
    (h : ∀ entry ∈ fields, entry.1.isSome = true ∧ entry.2.WellFormed) :
    Json.parse? (success fields).text.toList =
      some (.object (Json.field "success" (.bool true) :: fields)) := by
  refine Json.parse?_compact (Json.wellFormed_object fun entry he => ?_)
  rcases List.mem_cons.1 he with rfl | he
  · exact ⟨rfl, by simp [Json.field, Json.WellFormed]⟩
  · exact h entry he

/-- The answer to a stored submission is read as its receipt. -/
theorem receipt_of_saved (record : Record) (source : Source) :
    (Json.parse? (saved record source).text.toList).bind Receipt.ofJson? =
      some ⟨record.summary, source⟩ := by
  have hrecord : Json.record? ["analysis", "source"] (.object [
      Json.field "success" (.bool true), Json.field "analysis" record.toJson,
      Json.field "source" (.grade source)]) =
      some [some record.toJson, some (.grade source)] := rfl
  rw [saved, parse?_success (by simp [Json.field, Record.wellFormed_toJson]), Option.bind_some]
  simp only [Receipt.ofJson?, hrecord, Json.present_bind, Option.pure_def, Json.required_some,
    AnalysisSummary.ofJson?_record, Json.asGrade?_grade]

/-- The answer to a request for the ranking is read entry for entry. -/
theorem entries_of_ranking (entries : List (Record × Option String)) :
    (Json.parse? (success [Json.field "leaderboard"
      (.array (entries.map rankedJson))]).text.toList).bind Leaderboard.ofJson? =
      some (entries.map fun entry => ⟨entry.1.summary, entry.2⟩) := by
  have hrecord : Json.record? ["leaderboard"] (.object [Json.field "success" (.bool true),
      Json.field "leaderboard" (.array (entries.map rankedJson))]) =
      some [some (.array (entries.map rankedJson))] := rfl
  have hentries : Json.all? RankedAnalysis.ofJson? (entries.map rankedJson) =
      some (entries.map fun entry => ⟨entry.1.summary, entry.2⟩) :=
    Json.all?_map_to RankedAnalysis.ofJson?_rankedJson entries
  have hwell : (Json.array (entries.map rankedJson)).WellFormed := by
    rw [Json.WellFormed]
    exact Json.wellFormedItems_map wellFormed_rankedJson entries
  rw [parse?_success (by simpa [Json.field] using hwell), Option.bind_some]
  simp only [Leaderboard.ofJson?, hrecord, Json.present_bind, Json.required_some, Json.asList?,
    hentries]

end Web

end Appraisal
