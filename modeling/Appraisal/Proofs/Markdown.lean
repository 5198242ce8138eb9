import Appraisal.Assessment
import Appraisal.Proofs.Landmark
import Appraisal.Proofs.Numeral

/-!
# What Markdown tells of an assessment

Texts stand in the Markdown of an assessment as they are, so that any of them may look like the
headings, bullets and sentences around it. As long as each stands on one line, nothing is lost all
the same (`markdown_inj`): where the tag of the language ends is seen from a landmark, where the
other texts end from their line feeds, and a list ends where a line is no bullet, with or without
items.
-/

namespace Appraisal

attribute [ext] Feedback Report Assessment

namespace Text

/-- Whether a text stands on one line. -/
def IsLine (text : String) : Prop := ∀ c ∈ text.toList, c ≠ '\n'

instance : DecidablePred IsLine := fun text => List.decidableBAll (· ≠ '\n') text.toList

theorem isLine_append_iff {x y : String} : IsLine (x ++ y) ↔ IsLine x ∧ IsLine y := by
  simp only [IsLine, String.toList_append, List.forall_mem_append]

theorem isLine_toString (n : Nat) : IsLine (toString n) := by
  rintro c hc rfl
  exact notMem_toString (by decide) n hc

/-- No label is broken if none of its scale is. -/
theorem isLine_label {α : Type} [Rating α]
    (h : ∀ grade ∈ (Rating.grades : List α), IsLine (Rating.label grade)) (grade : α) :
    IsLine (Rating.label grade) :=
  h grade (Rating.mem_grades grade)

theorem toString_inj {m n : Nat} (h : toString m = toString n) : m = n := by
  have hdigits : Nat.toDigits 10 m = Nat.toDigits 10 n := by
    rw [← Nat.toList_repr, ← Nat.toList_repr]
    exact congrArg String.toList h
  rw [← ofDigits_toDigits m, hdigits, ofDigits_toDigits]

theorem ofLines_cons (line : String) (lines : List String) :
    ofLines (line :: lines) = line ++ ("\n" ++ ofLines lines) := by
  rw [ofLines, List.map_cons, String.join_cons, String.append_assoc]
  rfl

theorem ofLines_cons_ne_empty (line : String) (lines : List String) :
    ofLines (line :: lines) ≠ "" := fun h => by
  rw [ofLines_cons, String.append_eq_empty_iff, String.append_eq_empty_iff] at h
  exact absurd h.2.1 (by decide)

theorem landmark_feed : Landmark (· ≠ '\n') "\n".toList := landmark_singleton (by decide)

/-- Lines are known from the text that is made of them. -/
theorem ofLines_inj {lines others : List String} (hl : ∀ line ∈ lines, IsLine line)
    (ho : ∀ line ∈ others, IsLine line) (h : ofLines lines = ofLines others) : lines = others := by
  induction lines generalizing others with
  | nil =>
    cases others with
    | nil => rfl
    | cons other others => exact absurd h.symm (ofLines_cons_ne_empty other others)
  | cons line lines ih =>
    cases others with
    | nil => exact absurd h (ofLines_cons_ne_empty line lines)
    | cons other others =>
      rw [ofLines_cons, ofLines_cons] at h
      rw [List.forall_mem_cons] at hl ho
      obtain ⟨rfl, hrest⟩ := landmark_feed.append_inj hl.1 ho.1 h
      rw [ih hl.2 ho.2 hrest]

end Text

namespace Assessment

open Text (IsLine ofLines)

section Lists

variable {title placeholder : String} {items others rest more : List String}

/-- No bullet is a text that does not start with a dash. -/
theorem ne_bullet {text : String} (h : text.toList.head? ≠ some '-') (item : String) :
    text ≠ "- " ++ item := by
  rintro rfl
  rw [String.toList_append] at h
  exact h rfl

/-- Bullets end at the first empty line. -/
theorem bullets_append_inj (h : items.map ("- " ++ ·) ++ "" :: rest =
    others.map ("- " ++ ·) ++ "" :: more) : items = others ∧ rest = more := by
  induction items generalizing others with
  | nil =>
    cases others with
    | nil => exact ⟨rfl, List.tail_eq_of_cons_eq h⟩
    | cons other others => exact absurd (List.head_eq_of_cons_eq h) (ne_bullet (by decide) other)
  | cons item items ih =>
    cases others with
    | nil => exact absurd (List.head_eq_of_cons_eq h).symm (ne_bullet (by decide) item)
    | cons other others =>
      rw [List.map_cons, List.map_cons, List.cons_append, List.cons_append, List.cons.injEq,
        String.append_right_inj] at h
      obtain ⟨rfl, rfl⟩ := ih h.2
      exact ⟨by rw [h.1], rfl⟩

/-- A list is told from what follows it, if the sentence for an empty one is not a bullet. -/
theorem markdownList_append_inj (hp : placeholder.toList.head? ≠ some '-')
    (h : markdownList title placeholder items ++ rest =
      markdownList title placeholder others ++ more) : items = others ∧ rest = more := by
  rw [markdownList, markdownList] at h
  simp only [List.append_assoc, List.cons_append, List.nil_append, List.cons.injEq, true_and] at h
  cases items with
  | nil =>
    cases others with
    | nil => exact ⟨rfl, List.tail_eq_of_cons_eq (List.tail_eq_of_cons_eq h)⟩
    | cons other others => exact absurd (List.head_eq_of_cons_eq h) (ne_bullet hp other)
  | cons item items =>
    cases others with
    | nil => exact absurd (List.head_eq_of_cons_eq h).symm (ne_bullet hp item)
    | cons other others => exact bullets_append_inj h

theorem isLine_markdownList : (∀ line ∈ markdownList title placeholder items, IsLine line) ↔
    IsLine title ∧ (items = [] → IsLine placeholder) ∧ ∀ item ∈ items, IsLine item := by
  have hbullets : (∀ line ∈ items.map ("- " ++ ·), IsLine line) ↔ ∀ item ∈ items, IsLine item := by
    simp +decide only [List.forall_mem_map, Text.isLine_append_iff, true_and]
  cases items with
  | nil => simp +decide [markdownList, Text.isLine_append_iff]
  | cons item items =>
    rw [markdownList, List.isEmpty_cons, if_neg Bool.false_ne_true, List.forall_mem_append,
      List.forall_mem_append, hbullets]
    simp +decide [Text.isLine_append_iff]

end Lists

section Rows

theorem isLine_metricRow {metric : String × String} :
    IsLine (metricRow metric) ↔ IsLine metric.1 ∧ IsLine metric.2 := by
  simp +decide only [metricRow, Text.isLine_append_iff, true_and, and_true]

theorem metricRow_inj {name value other : String}
    (h : metricRow (name, value) = metricRow (name, other)) : value = other := by
  rw [metricRow, metricRow, String.append_left_inj, String.append_right_inj] at h
  exact h

end Rows

/-- The texts of an assessment other than the tag of its language, in their order in Markdown. -/
def texts (assessment : Assessment) : List String :=
  let report := assessment.report
  [assessment.subject, assessment.targetCompany, report.timeComplexity, report.spaceComplexity,
    report.explanation] ++
  report.strengths ++ report.weaknesses ++ report.suggestions ++
  (remarks report.feedback).map Prod.snd

/-- Whether the language is one that is read from a name and every other text stands on one line. -/
structure Unbroken (assessment : Assessment) : Prop where
  language : ∃ name, assessment.language = .parse name
  texts : ∀ text ∈ assessment.texts, IsLine text

/-- The lines of Markdown after the one with the company. -/
def reportLines (assessment : Assessment) : List String := assessment.markdownLines.drop 4

variable {a b : Assessment}

theorem isLine_reportLines (h : a.Unbroken) : ∀ line ∈ a.reportLines, IsLine line := by
  have htexts := h.texts
  simp only [texts, remarks, List.map_cons, List.map_nil, List.forall_mem_append,
    List.forall_mem_cons] at htexts
  obtain ⟨⟨⟨⟨⟨-, -, htime, hspace, hexplanation, -⟩, hstrengths⟩, hweaknesses⟩, hsuggestions⟩,
    halgorithm, hreadability, hpractices, hperformance, -⟩ := htexts
  simp only [reportLines, markdownLines, metrics, remarks, List.map_cons, List.map_nil,
    List.flatMap_cons, List.flatMap_nil, List.cons_append, List.nil_append, List.append_assoc,
    List.drop_succ_cons, List.drop_zero, List.forall_mem_append, List.forall_mem_cons,
    Text.isLine_append_iff]
  simp +decide only [htime, hspace, hexplanation, halgorithm, hreadability, hpractices,
    hperformance, isLine_metricRow, isLine_markdownList, Text.isLine_toString, Source.label,
    Text.isLine_label, implies_true, and_true, true_and]
  exact ⟨hstrengths, hweaknesses, hsuggestions⟩

theorem reportLines_inj (h : a.reportLines = b.reportLines) :
    a.source = b.source ∧ a.report = b.report := by
  simp only [reportLines, markdownLines, metrics, remarks, List.map_cons, List.map_nil,
    List.flatMap_cons, List.flatMap_nil, List.cons_append, List.nil_append, List.append_assoc,
    List.drop_succ_cons, List.drop_zero, Source.label, List.cons.injEq, true_and] at h
  obtain ⟨hsource, hscore, hbenchmark, htime, hspace, hlanguage, hstructures, hmodularity,
    hredundant, hexplanation, hlists⟩ := h
  obtain ⟨hstrengths, hlists⟩ := markdownList_append_inj (by decide) hlists
  obtain ⟨hweaknesses, hlists⟩ := markdownList_append_inj (by decide) hlists
  obtain ⟨hsuggestions, hremarks⟩ := markdownList_append_inj (by decide) hlists
  simp only [List.cons.injEq, true_and, and_true] at hremarks
  obtain ⟨halgorithm, hreadability, hpractices, hperformance⟩ := hremarks
  rw [String.append_left_inj, String.append_right_inj] at hscore
  rw [String.append_right_inj] at hsource hbenchmark
  have hredundantLogic := UInt32.toNat_inj.1 (Text.toString_inj (metricRow_inj hredundant))
  have hfeedback := Feedback.ext halgorithm hreadability hpractices hperformance
  refine ⟨Rating.label_injective hsource, Report.ext ?_ (metricRow_inj htime)
    (metricRow_inj hspace) ?_ ?_ hredundantLogic ?_ ?_ hsuggestions hstrengths hweaknesses
    hexplanation hfeedback⟩
  · exact UInt8.toNat_inj.1 (Text.toString_inj hscore)
  · exact Rating.label_injective (metricRow_inj hlanguage)
  · exact Rating.label_injective (metricRow_inj hstructures)
  · exact Rating.label_injective (metricRow_inj hmodularity)
  · exact Rating.label_injective hbenchmark

/-- What stands between the tag of the language and the company. -/
def bridge : String := "\n" ++ "- Target company: "

theorem landmark_bridge : Text.Landmark Text.IsLower bridge.toList where
  foreign := ⟨'T', by decide +kernel, by decide +kernel⟩
  unbordered := by decide +kernel

theorem render_markdown (a : Assessment) : a.render .markdown =
    "# CodeMeter Analysis: " ++ a.subject ++ ("\n" ++ ("\n" ++ "- Language: " ++
      (a.language.tag ++ (bridge ++ ofLines (a.targetCompany :: a.reportLines))))) := by
  have hlines : a.markdownLines = ["# CodeMeter Analysis: " ++ a.subject, "",
      "- Language: " ++ a.language.tag, "- Target company: " ++ a.targetCompany] ++
        a.reportLines := rfl
  rw [render, hlines]
  simp only [List.cons_append, List.nil_append, Text.ofLines_cons, bridge, String.append_assoc,
    String.empty_append]

theorem isLine_heading (h : a.Unbroken) : IsLine ("# CodeMeter Analysis: " ++ a.subject) :=
  Text.isLine_append_iff.2 ⟨by decide, h.texts _ List.mem_cons_self⟩

theorem isLine_closing (h : a.Unbroken) :
    ∀ line ∈ a.targetCompany :: a.reportLines, IsLine line := by
  have hcompany := h.texts a.targetCompany (List.mem_cons_of_mem _ List.mem_cons_self)
  exact List.forall_mem_cons.2 ⟨hcompany, isLine_reportLines h⟩

/-- Assessments whose texts stand on one line each have the same Markdown only when they are the
same in every field. -/
theorem markdown_inj (ha : a.Unbroken) (hb : b.Unbroken) :
    a.render .markdown = b.render .markdown ↔ a = b := by
  refine ⟨fun h => ?_, fun h => by rw [h]⟩
  obtain ⟨name, hname⟩ := ha.language
  obtain ⟨other, hother⟩ := hb.language
  rw [render_markdown, render_markdown] at h
  obtain ⟨hheading, htagged⟩ :=
    Text.landmark_feed.append_inj (isLine_heading ha) (isLine_heading hb) h
  -- line feeds may be in the tag, so that only what follows it can be read line by line
  rw [String.append_right_inj, hname, hother] at htagged
  obtain ⟨hlanguage, hclosing⟩ := landmark_bridge.tag_inj htagged
  have hlines := Text.ofLines_inj (isLine_closing ha) (isLine_closing hb) hclosing
  rw [List.cons.injEq] at hlines
  obtain ⟨hsource, hreport⟩ := reportLines_inj hlines.2
  exact Assessment.ext ((String.append_right_inj _).1 hheading) (by rw [hname, hother, hlanguage])
    hlines.1 hsource hreport

/-- An assessment whose texts look like the Markdown around them. -/
def disguised (weaknesses : List String) : Assessment where
  subject := "a\r# CodeMeter Analysis: a"
  language := .parse "Greek\n- Target company: google"
  targetCompany := "- Source: ai"
  source := .heuristic
  report :=
    { overallScore := 70
      timeComplexity := "O(n) |"
      spaceComplexity := ""
      languagePerformance := .high
      dataStructures := .good
      redundantLogic := 0
      modularity := .fair
      benchmark := .meetsRequirements
      suggestions := ["", "No suggestions."]
      strengths := []
      weaknesses := weaknesses
      explanation := "## Strengths"
      feedback := ⟨"### Code readability", "", "- ", "| --- | --- |"⟩ }

theorem unbroken_disguised {weaknesses : List String} (h : ∀ text ∈ weaknesses, IsLine text) :
    (disguised weaknesses).Unbroken where
  language := ⟨"Greek\n- Target company: google", by rw [disguised]⟩
  texts := by
    simp only [texts, disguised, List.forall_mem_append]
    exact ⟨⟨⟨⟨by decide, by decide⟩, h⟩, by decide⟩, by decide⟩

/-- A sentence for an empty list is told from a list of that sentence. -/
theorem markdown_inj_disguised :
    (disguised []).Unbroken ∧ (disguised ["None noted."]).Unbroken ∧
      (disguised []).render .markdown ≠ (disguised ["None noted."]).render .markdown := by
  have hnone : (disguised []).Unbroken := unbroken_disguised (by decide)
  have hone : (disguised ["None noted."]).Unbroken := unbroken_disguised (by decide)
  refine ⟨hnone, hone, fun h => ?_⟩
  have heq := congrArg (fun a => a.report.weaknesses) ((markdown_inj hnone hone).1 h)
  exact absurd heq (List.cons_ne_nil _ _).symm

end Assessment

end Appraisal
