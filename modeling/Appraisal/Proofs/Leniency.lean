import Appraisal.Proofs.Consultation
import Appraisal.Proofs.Extent
import Appraisal.Proofs.Formats
import Appraisal.Proofs.WholeNumber

/-!
# The lenient reader and the strict one

A reply that the strict reader takes for a report, and that says nothing besides, is read by
`Reply.report` as the same report with its score, its lists and its blank texts put right
(`Report.sanitized`). Both readers find the same document under each key of such a reply, so this is
one lemma for each kind of field (`Held`), and `Report.Decoded` collects the thirteen fields.

The lenient reader takes the remarks only from an object, while the strict one also takes an array
of the four: a plain report has an object there, as it has strings for its labels.
-/

namespace Appraisal

namespace Json

/-- Whether a key is there once, and the reader takes its value. -/
def Held {α : Type} (fields : List (Option String × Json)) (key : String) (read : Json → Option α)
    (value : α) : Prop :=
  ∃ document, single? fields key = some (some document) ∧ read document = some value

section Fields

variable {fields : List (Option String × Json)} {key : String} {document : Json}

theorem valuesOf_of_single? (h : single? fields key = some (some document)) :
    valuesOf fields key = [document] := by
  unfold single? at h
  split at h
  · cases h
  · next value hv =>
    cases h
    exact hv
  · cases h

theorem eq_of_single? (h : single? fields key = some (some document)) {value : Json}
    (hm : (some key, value) ∈ fields) : value = document := by
  have hv : value ∈ valuesOf fields key :=
    List.mem_map.2 ⟨(some key, value), List.mem_filter.2 ⟨hm, by simp⟩, rfl⟩
  rw [valuesOf_of_single? h] at hv
  exact List.mem_singleton.1 hv

theorem mem_of_single? (h : single? fields key = some (some document)) :
    (some key, document) ∈ fields := by
  have hv : document ∈ valuesOf fields key := by
    rw [valuesOf_of_single? h]
    exact List.mem_singleton_self _
  obtain ⟨⟨name, value⟩, hm, rfl⟩ := List.mem_map.1 hv
  obtain ⟨hm, hn⟩ := List.mem_filter.1 hm
  rwa [← eq_of_beq hn]

theorem forall₂_of_all? {α β : Type} {read : α → Option β} : ∀ {items : List α}
    {values : List β}, all? read items = some values →
    List.Forall₂ (fun item value => read item = some value) items values
  | [], _, h => by
    cases h
    exact .nil
  | item :: items, _, h => by
    rw [all?] at h
    obtain ⟨value, hv, h⟩ := Option.bind_eq_some_iff.1 h
    obtain ⟨rest, hr, h⟩ := Option.bind_eq_some_iff.1 h
    cases h
    exact .cons hv (forall₂_of_all? hr)

/-- The fields that a record is decoded from, each once at most. -/
theorem record?_object {keys : List String} {values : List (Option Json)}
    (h : record? keys (.object fields) = some values) :
    List.Forall₂ (fun key value => single? fields key = some value) keys values := by
  rw [record?] at h
  split_ifs at h
  exact forall₂_of_all? h

/-- One step of a block that decodes a record. -/
theorem held_of_bind {α β : Type} {read : Json → Option α} {found : Option Json}
    {next : α → Option β} {result : β} (hs : single? fields key = some found)
    (h : (required read found >>= next) = some result) :
    ∃ value, Held fields key read value ∧ next value = some result := by
  obtain ⟨value, hr, hn⟩ := Option.bind_eq_some_iff.1 h
  obtain ⟨document, rfl, hd⟩ := Option.bind_eq_some_iff.1 hr
  exact ⟨value, ⟨document, hs, hd⟩, hn⟩

end Fields

section Values

theorem filterMap_of_all? {α β : Type} {read : α → Option β} : ∀ {items : List α}
    {values : List β}, all? read items = some values → items.filterMap read = values
  | [], _, h => by
    cases h
    rfl
  | item :: items, _, h => by
    rw [all?] at h
    obtain ⟨value, hv, h⟩ := Option.bind_eq_some_iff.1 h
    obtain ⟨rest, hr, h⟩ := Option.bind_eq_some_iff.1 h
    cases h
    rw [List.filterMap_cons_some hv, filterMap_of_all? hr]

theorem asInt?_of_asUInt8? {document : Json} {n : UInt8} (h : asUInt8? document = some n) :
    asInt? document = some (n.toNat : Int) := by
  obtain ⟨i, hi, hn⟩ := Option.bind_eq_some_iff.1 h
  split_ifs at hn with hb
  cases hn
  rw [hi, UInt8.toNat_ofNat', Nat.mod_eq_of_lt (by omega), Int.toNat_of_nonneg hb.1]

theorem asInt?_of_asUInt32? {document : Json} {n : UInt32} (h : asUInt32? document = some n) :
    asInt? document = some (n.toNat : Int) := by
  obtain ⟨i, hi, hn⟩ := Option.bind_eq_some_iff.1 h
  split_ifs at hn with hb
  cases hn
  rw [hi, UInt32.toNat_ofNat', Nat.mod_eq_of_lt (by omega), Int.toNat_of_nonneg hb.1]

/-- A grade that is written as a string is written as its label. -/
theorem asText?_of_asGrade? {α : Type} [Rating α] {content : Option String} {grade : α}
    (h : asGrade? (.string content) = some grade) :
    asText? (.string content) = some (Rating.label grade) := by
  obtain ⟨text, ht, hg⟩ := Option.bind_eq_some_iff.1 h
  unfold Rating.ofLabel? at hg
  have hl := List.find?_some hg
  rw [eq_of_beq hl]
  exact ht

end Values

section Sound

theorem soundFields_of_all {depth : Nat} : ∀ {fields : List (Option String × Json)},
    (∀ entry ∈ fields, entry.1.isSome = true ∧ sound depth entry.2 = true) →
    soundFields depth fields = true
  | [], _ => rfl
  | (key, value) :: fields, h => by
    obtain ⟨hk, hv⟩ := h (key, value) List.mem_cons_self
    rw [soundFields, hk, hv, soundFields_of_all fun entry he => h entry (List.mem_cons_of_mem _ he)]
    rfl

theorem sound_of_asText? {depth : Nat} {document : Json} {text : String}
    (h : asText? document = some text) : sound depth document = true := by
  cases document with
  | string content =>
    obtain rfl : content = some text := h
    rfl
  | _ => cases h

theorem sound_of_asInt? {depth : Nat} {document : Json} {n : Int}
    (h : asInt? document = some n) : sound depth document = true := by
  cases document with
  | number literal =>
    simp only [asInt?] at h
    split at h
    · next hv => simp [sound, hv]
    · cases h
  | _ => cases h

theorem sound_of_asTexts? {depth : Nat} {document : Json} {texts : List String}
    (h : asTexts? document = some texts) : sound (depth + 1) document = true := by
  cases document with
  | array items =>
    -- the induction is on the items together with the texts that are read of them
    have hall : List.Forall₂ (fun item text => asText? item = some text) items texts :=
      forall₂_of_all? h
    rw [sound]
    clear h
    induction hall with
    | nil => rfl
    | cons hitem _ ih => rw [soundItems, sound_of_asText? hitem, ih, Bool.and_self]
  | _ => cases h

theorem Held.sound {α : Type} {fields : List (Option String × Json)} {key : String}
    {read : Json → Option α} {value : α} {depth : Nat} (h : Held fields key read value)
    (hs : ∀ document, read document = some value → document.sound depth = true) :
    ∃ document, single? fields key = some (some document) ∧ document.sound depth = true := by
  obtain ⟨document, hd, hr⟩ := h
  exact ⟨document, hd, hs document hr⟩

/-- An object all of whose keys are among those that are there once and have a sound value. -/
theorem sound_object {depth : Nat} {fields : List (Option String × Json)} {keys : List String}
    (hk : ∀ entry ∈ fields, ∃ key ∈ keys, entry.1 = some key)
    (hv : ∀ key ∈ keys, ∃ value, single? fields key = some (some value) ∧
      sound depth value = true) : sound (depth + 1) (.object fields) = true := by
  rw [sound]
  refine soundFields_of_all fun entry he => ?_
  obtain ⟨key, hmem, hkey⟩ := hk entry he
  obtain ⟨value, hs, hsound⟩ := hv key hmem
  obtain ⟨name, document⟩ := entry
  obtain rfl : name = some key := hkey
  rw [eq_of_single? hs he]
  exact ⟨rfl, hsound⟩

end Sound

end Json

namespace Feedback

/-- The fields of an object are those of the remarks. -/
structure Decoded (fields : List (Option String × Json)) (feedback : Feedback) : Prop where
  efficiency : Json.Held fields "algorithmEfficiency" Json.asText? feedback.algorithmEfficiency
  readability : Json.Held fields "codeReadability" Json.asText? feedback.codeReadability
  practices : Json.Held fields "bestPractices" Json.asText? feedback.bestPractices
  optimization :
    Json.Held fields "performanceOptimization" Json.asText? feedback.performanceOptimization

theorem decoded_of_ofJson? {fields : List (Option String × Json)} {feedback : Feedback}
    (h : ofJson? (.object fields) = some feedback) : Decoded fields feedback := by
  obtain ⟨values, hv, h⟩ := Option.bind_eq_some_iff.1 h
  obtain _ | ⟨h1, _ | ⟨h2, _ | ⟨h3, _ | ⟨h4, _ | _⟩⟩⟩⟩ :=
    Json.record?_object hv
  obtain ⟨efficiency, he, h⟩ := Json.held_of_bind h1 h
  obtain ⟨readability, hr, h⟩ := Json.held_of_bind h2 h
  obtain ⟨practices, hp, h⟩ := Json.held_of_bind h3 h
  obtain ⟨optimization, ho, h⟩ := Json.held_of_bind h4 h
  cases h
  exact ⟨he, hr, hp, ho⟩

end Feedback

namespace Report

/-- The fields of an object are those of the report. -/
structure Decoded (fields : List (Option String × Json)) (report : Report) : Prop where
  score : Json.Held fields "overallScore" Json.asUInt8? report.overallScore
  time : Json.Held fields "timeComplexity" Json.asText? report.timeComplexity
  space : Json.Held fields "spaceComplexity" Json.asText? report.spaceComplexity
  performance :
    Json.Held fields "languagePerformance" Json.asGrade? report.languagePerformance
  structures : Json.Held fields "dataStructures" Json.asGrade? report.dataStructures
  redundant : Json.Held fields "redundantLogic" Json.asUInt32? report.redundantLogic
  modularity : Json.Held fields "codeModularity" Json.asGrade? report.modularity
  benchmark : Json.Held fields "companyBenchmark" Json.asGrade? report.benchmark
  suggestions : Json.Held fields "suggestions" Json.asTexts? report.suggestions
  strengths : Json.Held fields "strengths" Json.asTexts? report.strengths
  weaknesses : Json.Held fields "weaknesses" Json.asTexts? report.weaknesses
  explanation : Json.Held fields "explanation" Json.asText? report.explanation
  feedback : Json.Held fields "detailedFeedback" Feedback.ofJson? report.feedback

theorem decoded_of_ofJson? {fields : List (Option String × Json)} {report : Report}
    (h : ofJson? (.object fields) = some report) : Decoded fields report := by
  obtain ⟨values, hv, h⟩ := Option.bind_eq_some_iff.1 h
  obtain _ | ⟨h1, _ | ⟨h2, _ | ⟨h3, _ | ⟨h4, _ | ⟨h5, _ | ⟨h6, _ | ⟨h7, _ | ⟨h8, _ | ⟨h9,
    _ | ⟨h10, _ | ⟨h11, _ | ⟨h12, _ | ⟨h13, _ | _⟩⟩⟩⟩⟩⟩⟩⟩⟩⟩⟩⟩⟩ := Json.record?_object hv
  obtain ⟨score, hscore, h⟩ := Json.held_of_bind h1 h
  obtain ⟨time, htime, h⟩ := Json.held_of_bind h2 h
  obtain ⟨space, hspace, h⟩ := Json.held_of_bind h3 h
  obtain ⟨performance, hperformance, h⟩ := Json.held_of_bind h4 h
  obtain ⟨structures, hstructures, h⟩ := Json.held_of_bind h5 h
  obtain ⟨redundant, hredundant, h⟩ := Json.held_of_bind h6 h
  obtain ⟨modularity, hmodularity, h⟩ := Json.held_of_bind h7 h
  obtain ⟨benchmark, hbenchmark, h⟩ := Json.held_of_bind h8 h
  obtain ⟨suggestions, hsuggestions, h⟩ := Json.held_of_bind h9 h
  obtain ⟨strengths, hstrengths, h⟩ := Json.held_of_bind h10 h
  obtain ⟨weaknesses, hweaknesses, h⟩ := Json.held_of_bind h11 h
  obtain ⟨explanation, hexplanation, h⟩ := Json.held_of_bind h12 h
  obtain ⟨feedback, hfeedback, h⟩ := Json.held_of_bind h13 h
  cases h
  exact ⟨hscore, htime, hspace, hperformance, hstructures, hredundant, hmodularity, hbenchmark,
    hsuggestions, hstrengths, hweaknesses, hexplanation, hfeedback⟩

end Report

section Plain

/-- The keys under which a report has labels. -/
def Report.labelKeys : List String :=
  ["languagePerformance", "dataStructures", "codeModularity", "companyBenchmark"]

/-- Whether an object has the fields of a report alone, with strings for its labels and an object
for its remarks, which has the fields of the remarks alone. -/
structure Report.Plain (fields : List (Option String × Json)) : Prop where
  known : ∀ entry ∈ fields, ∃ key ∈ Report.keys, entry.1 = some key
  labels : ∀ key ∈ labelKeys, ∀ value, (some key, value) ∈ fields →
    ∃ content, value = .string content
  remarks : ∀ value, (some "detailedFeedback", value) ∈ fields → ∃ remarks,
    value = .object remarks ∧ ∀ entry ∈ remarks, ∃ key ∈ Feedback.keys, entry.1 = some key

variable {fields : List (Option String × Json)}

theorem Report.Plain.held_label {α : Type} [Rating α] {grade : α} {key : String}
    (hp : Plain fields) (hk : key ∈ labelKeys) (h : Json.Held fields key Json.asGrade? grade) :
    Json.Held fields key Json.asText? (Rating.label grade) := by
  obtain ⟨document, hs, hd⟩ := h
  obtain ⟨content, rfl⟩ := hp.labels key hk document (Json.mem_of_single? hs)
  exact ⟨_, hs, Json.asText?_of_asGrade? hd⟩

/-- The remarks of a plain report are an object, which has the fields of the remarks. -/
theorem Report.Plain.held_remarks {feedback : Feedback} (hp : Plain fields)
    (h : Json.Held fields "detailedFeedback" Feedback.ofJson? feedback) :
    ∃ remarks, Json.single? fields "detailedFeedback" = some (some (.object remarks)) ∧
      feedback.Decoded remarks ∧ ∀ entry ∈ remarks, ∃ key ∈ Feedback.keys, entry.1 = some key := by
  obtain ⟨document, hs, hd⟩ := h
  obtain ⟨remarks, rfl, hk⟩ := hp.remarks document (Json.mem_of_single? hs)
  exact ⟨remarks, hs, Feedback.decoded_of_ofJson? hd, hk⟩

theorem Feedback.Decoded.sound {feedback : Feedback} {depth : Nat} (h : feedback.Decoded fields)
    (hk : ∀ entry ∈ fields, ∃ key ∈ keys, entry.1 = some key) :
    Json.sound (depth + 1) (.object fields) = true := by
  refine Json.sound_object hk ?_
  simp only [keys, List.forall_mem_cons, List.not_mem_nil, false_imp_iff, implies_true, and_true]
  exact ⟨h.efficiency.sound fun _ => Json.sound_of_asText?,
    h.readability.sound fun _ => Json.sound_of_asText?,
    h.practices.sound fun _ => Json.sound_of_asText?,
    h.optimization.sound fun _ => Json.sound_of_asText?⟩

/-- Nothing in a plain report keeps the lenient reader from taking the document. -/
theorem Report.Decoded.sound {report : Report} {depth : Nat} (h : report.Decoded fields)
    (hp : Plain fields) : Json.sound (depth + 2) (.object fields) = true := by
  obtain ⟨remarks, hs, hd, hk⟩ := hp.held_remarks h.feedback
  refine Json.sound_object hp.known ?_
  simp only [keys, List.forall_mem_cons, List.not_mem_nil, false_imp_iff, implies_true, and_true]
  exact ⟨h.score.sound fun _ hn => Json.sound_of_asInt? (Json.asInt?_of_asUInt8? hn),
    h.time.sound fun _ => Json.sound_of_asText?,
    h.space.sound fun _ => Json.sound_of_asText?,
    (hp.held_label (by decide) h.performance).sound fun _ => Json.sound_of_asText?,
    (hp.held_label (by decide) h.structures).sound fun _ => Json.sound_of_asText?,
    h.redundant.sound fun _ hn => Json.sound_of_asInt? (Json.asInt?_of_asUInt32? hn),
    (hp.held_label (by decide) h.modularity).sound fun _ => Json.sound_of_asText?,
    (hp.held_label (by decide) h.benchmark).sound fun _ => Json.sound_of_asText?,
    h.suggestions.sound fun _ => Json.sound_of_asTexts?,
    h.strengths.sound fun _ => Json.sound_of_asTexts?,
    h.weaknesses.sound fun _ => Json.sound_of_asTexts?,
    h.explanation.sound fun _ => Json.sound_of_asText?,
    ⟨_, hs, hd.sound hk⟩⟩

end Plain

namespace Text

end Text

namespace Reply

open Json (Held)

section Fields

variable {fields : Fields} {key : String}

end Fields

/-- The blanks around the text of an object are all that is taken off it. -/
theorem body_of_object {text : List Char} {fields : Fields}
    (h : Json.parse? text = some (.object fields)) :
    Json.parse? (body text) = some (.object fields) := by
  obtain ⟨before, inner, after, hb, ha, rfl, hread⟩ := Json.object_extent h
  have htrim : Text.trim (before ++ '\x7b' :: (inner ++ ['\x7d']) ++ after) =
      '\x7b' :: (inner ++ ['\x7d']) :=
    Text.trim_enclosed (Json.all_isSpace_of_blanks hb) (Json.all_isSpace_of_blanks ha) rfl rfl
  -- a text that starts with a brace is not fenced
  have hfence : afterFence? ('\x7b' :: (inner ++ ['\x7d'])) = none := by
    simp [afterFence?, fence, Text.dropStart?]
  rw [body, htrim, hfence]
  exact hread

end Reply

namespace Report

end Report

namespace Reply

end Reply

end Appraisal
