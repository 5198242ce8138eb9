import Appraisal.Leaderboard
import Appraisal.Posting
import Appraisal.Proofs.Document
import Appraisal.Proofs.LowerCase
import Appraisal.Record

/-!
# Formats

Each record of the library is read back from its document, and the document from either of its
writings, so that nothing is lost on the way (`formats_lossless`). For one record this takes two
facts: that its document is well formed, and that its fields are found again under their keys
(`record?_fields`).
-/

namespace Appraisal

namespace Json

section Fields

theorem all?_congr {α β : Type} {read read' : α → Option β} : ∀ {items : List α},
    (∀ item ∈ items, read item = read' item) → all? read items = all? read' items
  | [], _ => rfl
  | item :: items, h => by
    rw [all?, all?, h item List.mem_cons_self,
      all?_congr fun other ho => h other (List.mem_cons_of_mem _ ho)]

theorem valuesOf_cons_self (key : String) (value : Json) (fields : List (Option String × Json)) :
    valuesOf (field key value :: fields) key = value :: valuesOf fields key := by
  simp [valuesOf, field]

theorem valuesOf_cons_of_ne {key other : String} (h : key ≠ other) (value : Json)
    (fields : List (Option String × Json)) :
    valuesOf (field key value :: fields) other = valuesOf fields other := by
  simp [valuesOf, field, h]

theorem valuesOf_of_notMem {key : String} : ∀ {keys : List String} {values : List Json},
    key ∉ keys → valuesOf (List.zipWith field keys values) key = []
  | [], _, _ => rfl
  | _ :: _, [], _ => rfl
  | other :: keys, value :: values, h => by
    rw [List.mem_cons, not_or] at h
    rw [List.zipWith_cons_cons, valuesOf_cons_of_ne (Ne.symm h.1)]
    exact valuesOf_of_notMem h.2

theorem all?_single?_nil : ∀ keys : List String,
    all? (single? []) keys = some (keys.map fun _ => none)
  | [] => rfl
  | key :: keys => by
    rw [all?, all?_single?_nil keys]
    rfl

theorem all?_single?_fields {missing : List String} : ∀ {keys : List String} {values : List Json},
    (keys ++ missing).Nodup → keys.length = values.length →
    all? (single? (List.zipWith field keys values)) (keys ++ missing) =
      some (values.map some ++ missing.map fun _ => none)
  | [], [], _, _ => all?_single?_nil missing
  | key :: keys, value :: values, hn, hl => by
    rw [List.cons_append, List.nodup_cons] at hn
    have hkey : single? (field key value :: List.zipWith field keys values) key =
        some (some value) := by
      rw [single?, valuesOf_cons_self, valuesOf_of_notMem (by simp_all)]
    have hrest : all? (single? (field key value :: List.zipWith field keys values))
        (keys ++ missing) = all? (single? (List.zipWith field keys values)) (keys ++ missing) := by
      refine all?_congr fun other ho => ?_
      have hne : key ≠ other := by
        rintro rfl
        exact hn.1 ho
      rw [single?, single?, valuesOf_cons_of_ne hne]
    rw [List.zipWith_cons_cons, List.cons_append, all?, hkey, hrest,
      all?_single?_fields hn.2 (by simpa using hl)]
    rfl
  | [], _ :: _, _, hl => by simp at hl
  | _ :: _, [], _, hl => by simp at hl

/-- The fields of a record are found under their keys, and those that are not there are missing. -/
theorem record?_fields (keys missing : List String) (values : List Json)
    (hn : (keys ++ missing).Nodup) (hl : keys.length = values.length) :
    record? (keys ++ missing) (.object (List.zipWith field keys values)) =
      some (values.map some ++ missing.map fun _ => none) := by
  have hall : (List.zipWith field keys values).all (fun field => field.1.isSome) = true := by
    rw [List.all_eq_true]
    intro entry he
    obtain ⟨i, hi, rfl⟩ := List.getElem_of_mem he
    simp [field]
  rw [record?, if_pos hall, all?_single?_fields hn hl]

/-- The bind of a block written with `do`: as an `Option.bind`, the rest of a long block would be
simplified under the assumption that the value is present, once for each of its steps. -/
theorem present_bind {α β : Type} (value : α) (next : α → Option β) :
    (some value >>= next) = next value := rfl

theorem required_some {α : Type} (read : Json → Option α) (value : Json) :
    required read (some value) = read value := rfl

end Fields

section Values

@[simp] theorem wellFormed_text (content : String) : (text content).WellFormed := by
  simp [text, WellFormed]

@[simp] theorem wellFormed_int (n : Int) : (int n).WellFormed := by
  simp [int, WellFormed, Literal.wellFormed_ofInt]

theorem wellFormedItems_map {α : Type} {write : α → Json} (h : ∀ value, (write value).WellFormed) :
    ∀ values : List α, WellFormedItems (values.map write)
  | [] => by simp [WellFormedItems]
  | value :: values => by simp [WellFormedItems, h value, wellFormedItems_map h values]

@[simp] theorem wellFormed_texts (contents : List String) : (texts contents).WellFormed := by
  rw [texts, WellFormed]
  exact wellFormedItems_map wellFormed_text contents

@[simp] theorem wellFormed_text? (content : Option String) : (text? content).WellFormed := by
  cases content <;> simp [text?, WellFormed]

@[simp] theorem wellFormed_grade {α : Type} [Rating α] (value : α) : (grade value).WellFormed :=
  wellFormed_text _

@[simp] theorem wellFormed_language (value : Language) : (language value).WellFormed :=
  wellFormed_text _

theorem wellFormed_object {fields : List (Option String × Json)}
    (h : ∀ entry ∈ fields, entry.1.isSome = true ∧ entry.2.WellFormed) :
    (Json.object fields).WellFormed := by
  rw [WellFormed]
  induction fields with
  | nil => simp [WellFormedFields]
  | cons entry fields ih =>
    obtain ⟨key, value⟩ := entry
    rw [WellFormedFields]
    have hentry := h (key, value) List.mem_cons_self
    exact ⟨hentry.1, hentry.2, ih fun other ho => h other (List.mem_cons_of_mem _ ho)⟩

theorem asInt?_int {n : Int} (hl : -0x8000000000000000 ≤ n) (hh : n < 0x10000000000000000) :
    asInt? (int n) = some n := by
  simp [asInt?, int, Literal.value?_ofInt hl hh]

@[simp] theorem asUInt8?_int (n : UInt8) : asUInt8? (int n.toNat) = some n := by
  have hn := n.toNat_lt
  have hint : asInt? (int n.toNat) = some (n.toNat : Int) := asInt?_int (by omega) (by omega)
  rw [asUInt8?, hint, Option.bind_eq_bind, Option.bind_some, if_pos (by omega), Int.toNat_natCast,
    UInt8.ofNat_toNat]

@[simp] theorem asUInt32?_int (n : UInt32) : asUInt32? (int n.toNat) = some n := by
  have hn := n.toNat_lt
  have hint : asInt? (int n.toNat) = some (n.toNat : Int) := asInt?_int (by omega) (by omega)
  rw [asUInt32?, hint, Option.bind_eq_bind, Option.bind_some, if_pos (by omega), Int.toNat_natCast,
    UInt32.ofNat_toNat]

@[simp] theorem asInt32?_int (n : Int32) : asInt32? (int n.toInt) = some n := by
  have hl := n.le_toInt
  have hh := n.toInt_lt
  have hint : asInt? (int n.toInt) = some n.toInt := asInt?_int (by omega) (by omega)
  rw [asInt32?, hint, Option.bind_eq_bind, Option.bind_some, if_pos (by omega), Int32.ofInt_toInt]

end Values

/-- Whether a value is read back from both writings of its document. -/
def Recovers {α : Type} (write : α → Json) (read : Json → Option α) (value : α) : Prop :=
  (parse? (write value).encode.toList).bind read = some value ∧
    (parse? (write value).encodePretty.toList).bind read = some value

theorem recovers_of_read {α : Type} {write : α → Json} {read : Json → Option α} {value : α}
    (hw : (write value).WellFormed) (hr : read (write value) = some value) :
    Recovers write read value := by
  rw [Recovers, parse?_compact hw, parse?_pretty hw, Option.bind_some]
  exact ⟨hr, hr⟩

end Json

namespace Feedback

theorem wellFormed_toJson (feedback : Feedback) : feedback.toJson.WellFormed :=
  Json.wellFormed_object (by simp [Json.field])

theorem ofJson?_toJson (feedback : Feedback) : ofJson? feedback.toJson = some feedback := by
  have h : Json.record? keys feedback.toJson = _ :=
    Json.record?_fields keys []
      [.text feedback.algorithmEfficiency, .text feedback.codeReadability,
        .text feedback.bestPractices, .text feedback.performanceOptimization] (by decide) rfl
  simp only [ofJson?, h, List.map_cons, List.map_nil, List.append_nil, Json.present_bind,
    Option.pure_def, Json.required_some, Json.asText?_text]

end Feedback

namespace Report

theorem wellFormed_toJson (report : Report) : report.toJson.WellFormed :=
  Json.wellFormed_object (by simp [Json.field, Feedback.wellFormed_toJson])

theorem ofJson?_toJson (report : Report) : ofJson? report.toJson = some report := by
  have h : Json.record? keys report.toJson = _ :=
    Json.record?_fields keys []
      [.int report.overallScore.toNat, .text report.timeComplexity,
        .text report.spaceComplexity, .grade report.languagePerformance,
        .grade report.dataStructures, .int report.redundantLogic.toNat, .grade report.modularity,
        .grade report.benchmark, .texts report.suggestions, .texts report.strengths,
        .texts report.weaknesses, .text report.explanation, report.feedback.toJson]
      (by decide) rfl
  simp only [ofJson?, h, List.map_cons, List.map_nil, List.append_nil, Json.present_bind,
    Option.pure_def, Json.required_some, Json.asText?_text, Json.asGrade?_grade,
    Json.asTexts?_texts, Json.asUInt8?_int, Json.asUInt32?_int, Feedback.ofJson?_toJson]

end Report

theorem Json.asLanguage?_language (name : String) :
    Json.asLanguage? (.language (.parse name)) = some (.parse name) := by
  rw [Json.asLanguage?, Json.language, Json.asText?_text, Option.map_some,
    Language.parse_tag_parse]

namespace Request

theorem wellFormed_toJson (request : Request) : request.toJson.WellFormed :=
  Json.wellFormed_object (by simp [Json.field])

/-- A request is read back if its language was read from a name. -/
theorem ofJson?_toJson (code name company : String) :
    ofJson? (toJson ⟨code, .parse name, company⟩) = some ⟨code, .parse name, company⟩ := by
  have h (language : Language) : Json.record? keys (toJson ⟨code, language, company⟩) = _ :=
    Json.record?_fields keys []
      [.text code, .language language, .text company] (by decide) rfl
  simp only [ofJson?, h, List.map_cons, List.map_nil, List.append_nil, Json.present_bind,
    Option.pure_def, Json.required_some, Json.asText?_text, Json.asLanguage?_language]

end Request

namespace Assessment

theorem wellFormed_toJson (assessment : Assessment) : assessment.toJson.WellFormed :=
  Json.wellFormed_object (by simp [Json.field, Report.wellFormed_toJson])

theorem ofJson?_toJson (subject name company : String) (source : Source) (report : Report) :
    ofJson? (toJson ⟨subject, .parse name, company, source, report⟩) =
      some ⟨subject, .parse name, company, source, report⟩ := by
  have h (language : Language) :
      Json.record? keys (toJson ⟨subject, language, company, source, report⟩) = _ :=
    Json.record?_fields keys []
      [.text subject, .language language, .text company, .grade source, report.toJson]
      (by decide) rfl
  simp only [ofJson?, h, List.map_cons, List.map_nil, List.append_nil, Json.present_bind,
    Option.pure_def, Json.required_some, Json.asText?_text, Json.asLanguage?_language,
    Json.asGrade?_grade, Report.ofJson?_toJson]

end Assessment

namespace Posting

theorem wellFormed_toJson (posting : Posting) : posting.toJson.WellFormed := by
  refine Json.wellFormed_object ?_
  cases posting.title <;> simp [Json.field]

/-- A title that there is not is missing from the document. -/
theorem record?_toJson : ∀ posting : Posting, Json.record? keys posting.toJson =
    some [some (.text posting.code), some (.text posting.language),
      some (.text posting.targetCompany), some (.text posting.userId),
      posting.title.map Json.text]
  | ⟨code, language, company, userId, none⟩ =>
    Json.record?_fields ["code", "language", "targetCompany", "userId"] ["title"]
      [.text code, .text language, .text company, .text userId] (by decide) rfl
  | ⟨code, language, company, userId, some title⟩ =>
    Json.record?_fields keys []
      [.text code, .text language, .text company, .text userId, .text title] (by decide) rfl

theorem optional_title (posting : Posting) :
    Json.optional Json.asText? (posting.title.map Json.text) = some posting.title := by
  cases posting.title <;> rfl

theorem ofJson?_toJson (posting : Posting) : ofJson? posting.toJson = some posting := by
  simp only [ofJson?, record?_toJson, Json.present_bind, Option.pure_def, Json.required_some,
    Json.asText?_text, optional_title]

end Posting

namespace AnalysisSummary

theorem wellFormed_toJson (analysis : AnalysisSummary) : analysis.toJson.WellFormed :=
  Json.wellFormed_object (by simp [Json.field, Report.wellFormed_toJson])

theorem ofJson?_toJson (analysis : AnalysisSummary) :
    ofJson? analysis.toJson = some analysis := by
  have h : Json.record? keys analysis.toJson = _ :=
    Json.record?_fields keys []
      [.text analysis.id, .text analysis.title, .text analysis.language,
        .text analysis.targetCompany, .int analysis.overallScore.toInt, analysis.report.toJson,
        .text analysis.createdAt] (by decide) rfl
  simp only [ofJson?, h, List.map_cons, List.map_nil, List.append_nil, Json.present_bind,
    Option.pure_def, Json.required_some, Json.asText?_text, Json.asInt32?_int,
    Report.ofJson?_toJson]

end AnalysisSummary

namespace RankedAnalysis

theorem wellFormed_toJson (entry : RankedAnalysis) : entry.toJson.WellFormed :=
  Json.wellFormed_object (by simp [Json.field, AnalysisSummary.wellFormed_toJson])

theorem ofJson?_toJson (entry : RankedAnalysis) : ofJson? entry.toJson = some entry := by
  have h : Json.record? ["analysis", "userName"] entry.toJson = _ :=
    Json.record?_fields ["analysis", "userName"] []
      [entry.analysis.toJson, .text? entry.userName] (by decide) rfl
  simp only [ofJson?, h, List.map_cons, List.map_nil, List.append_nil, Json.present_bind,
    Option.pure_def, Json.required_some, AnalysisSummary.ofJson?_toJson, Json.optional_text?]

end RankedAnalysis

namespace Leaderboard

theorem wellFormed_toJson (entries : List RankedAnalysis) : (toJson entries).WellFormed := by
  rw [toJson, Json.WellFormed]
  exact Json.wellFormedItems_map RankedAnalysis.wellFormed_toJson entries

theorem asList?_toJson (entries : List RankedAnalysis) :
    Json.asList? RankedAnalysis.ofJson? (toJson entries) = some entries :=
  Json.all?_map RankedAnalysis.ofJson?_toJson entries

end Leaderboard

namespace Record

theorem wellFormed_toJson (record : Record) : record.toJson.WellFormed :=
  Json.wellFormed_object (by simp [Json.field, Report.wellFormed_toJson])

theorem ofJson?_toJson (record : Record) : ofJson? record.toJson = some record := by
  have h : Json.record? keys record.toJson = _ :=
    Json.record?_fields keys []
      [.text record.id, .text record.userId, .text record.title, .text record.code,
        .text record.language, .text record.targetCompany, .int record.overallScore.toInt,
        .text record.timeComplexity, .text record.spaceComplexity, record.report.toJson,
        .text? record.fileUrl, .text record.createdAt] (by decide) rfl
  simp only [ofJson?, h, List.map_cons, List.map_nil, List.append_nil, Json.present_bind,
    Option.pure_def, Json.required_some, Json.asText?_text, Json.asInt32?_int,
    Report.ofJson?_toJson, Json.optional_text?]

end Record

/-- Nothing is lost by writing a record and reading it again. A language is one that was read from
a name: any other value might be written with a tag that reads as another language. -/
theorem formats_lossless :
    (∀ report : Report, Json.Recovers Report.toJson Report.ofJson? report) ∧
    (∀ code name company : String,
      Json.Recovers Request.toJson Request.ofJson? ⟨code, .parse name, company⟩) ∧
    (∀ (subject name company : String) (source : Source) (report : Report),
      Json.Recovers Assessment.toJson Assessment.ofJson?
        ⟨subject, .parse name, company, source, report⟩) ∧
    (∀ posting : Posting, Json.Recovers Posting.toJson Posting.ofJson? posting) ∧
    (∀ entries : List RankedAnalysis,
      Json.Recovers Leaderboard.toJson (Json.asList? RankedAnalysis.ofJson?) entries) ∧
    (∀ record : Record, Json.Recovers Record.toJson Record.ofJson? record) := by
  refine ⟨?_, ?_, ?_, ?_, ?_, ?_⟩
  · intro report
    exact Json.recovers_of_read report.wellFormed_toJson report.ofJson?_toJson
  · intro code name company
    exact Json.recovers_of_read (Request.wellFormed_toJson _)
      (Request.ofJson?_toJson code name company)
  · intro subject name company source report
    exact Json.recovers_of_read (Assessment.wellFormed_toJson _)
      (Assessment.ofJson?_toJson subject name company source report)
  · intro posting
    exact Json.recovers_of_read posting.wellFormed_toJson posting.ofJson?_toJson
  · intro entries
    exact Json.recovers_of_read (Leaderboard.wellFormed_toJson entries)
      (Leaderboard.asList?_toJson entries)
  · intro record
    exact Json.recovers_of_read record.wellFormed_toJson record.ofJson?_toJson

end Appraisal
