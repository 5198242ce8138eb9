import Appraisal.Json.Writer
import Appraisal.Report
import Appraisal.Request

/-!
# Assessments

A report together with what was assessed, and its three renderings: plain text, Markdown and JSON.
-/

namespace Appraisal

/-- A report together with what was assessed. -/
structure Assessment where
  subject : String
  language : Language
  targetCompany : String
  source : Source
  report : Report
deriving DecidableEq

/-- The renderings of a result. -/
inductive Format where
  | text
  | json
  | markdown
deriving DecidableEq, Repr

namespace Assessment

def keys : List String := ["subject", "language", "targetCompany", "source", "analysis"]

def toJson (assessment : Assessment) : Json := .object [
  Json.field "subject" (.text assessment.subject),
  Json.field "language" (.language assessment.language),
  Json.field "targetCompany" (.text assessment.targetCompany),
  Json.field "source" (.grade assessment.source),
  Json.field "analysis" assessment.report.toJson]

def ofJson? (document : Json) : Option Assessment := do
  match ← Json.record? keys document with
  | [subject, language, company, source, report] => return {
      subject := ← Json.required Json.asText? subject
      language := ← Json.required Json.asLanguage? language
      targetCompany := ← Json.required Json.asText? company
      source := ← Json.required Json.asGrade? source
      report := ← Json.required Report.ofJson? report }
  | _ => none

/-- A titled list in plain text; nothing for an empty one. -/
def textList (title : String) : List String → List String
  | [] => []
  | items => "" :: (title ++ ":") :: items.map ("  * " ++ ·)

def textLines (assessment : Assessment) : List String :=
  let report := assessment.report
  [assessment.subject ++ " (" ++ assessment.language.tag ++ ", " ++ assessment.targetCompany ++
      ") - " ++ assessment.source.label ++ " analysis",
    "Score: " ++ toString report.overallScore.toNat ++ "/100",
    "Benchmark: " ++ Rating.label report.benchmark,
    "Complexity: time " ++ report.timeComplexity ++ ", space " ++ report.spaceComplexity,
    "Language performance: " ++ Rating.label report.languagePerformance ++
      " | Data structures: " ++ Rating.label report.dataStructures ++
      " | Modularity: " ++ Rating.label report.modularity ++
      " | Redundant logic: " ++ toString report.redundantLogic.toNat,
    "",
    report.explanation] ++
  textList "Strengths" report.strengths ++ textList "Weaknesses" report.weaknesses ++
  textList "Suggestions" report.suggestions

def metrics (report : Report) : List (String × String) :=
  [("Time complexity", report.timeComplexity),
    ("Space complexity", report.spaceComplexity),
    ("Language performance", Rating.label report.languagePerformance),
    ("Data structures", Rating.label report.dataStructures),
    ("Code modularity", Rating.label report.modularity),
    ("Redundant logic", toString report.redundantLogic.toNat)]

/-- A row of the table of metrics. -/
def metricRow (metric : String × String) : String :=
  "| " ++ metric.1 ++ " | " ++ metric.2 ++ " |"

/-- A titled list in Markdown, with a sentence in place of an empty one. -/
def markdownList (title placeholder : String) (items : List String) : List String :=
  ["## " ++ title, ""] ++ (if items.isEmpty then [placeholder] else items.map ("- " ++ ·)) ++ [""]

/-- The remarks of a report, each with the area it is on. -/
def remarks (feedback : Feedback) : List (String × String) :=
  [("Algorithm efficiency", feedback.algorithmEfficiency),
    ("Code readability", feedback.codeReadability),
    ("Best practices", feedback.bestPractices),
    ("Performance optimization", feedback.performanceOptimization)]

def markdownLines (assessment : Assessment) : List String :=
  let report := assessment.report
  ["# CodeMeter Analysis: " ++ assessment.subject,
    "",
    "- Language: " ++ assessment.language.tag,
    "- Target company: " ++ assessment.targetCompany,
    "- Source: " ++ assessment.source.label,
    "- Score: **" ++ toString report.overallScore.toNat ++ "/100**",
    "- Benchmark: " ++ Rating.label report.benchmark,
    "",
    "## Metrics",
    "",
    "| Metric | Value |",
    "| --- | --- |"] ++
  (metrics report).map metricRow ++
  ["", "## Summary", "", report.explanation, ""] ++
  markdownList "Strengths" "None noted." report.strengths ++
  markdownList "Weaknesses" "None noted." report.weaknesses ++
  markdownList "Suggestions" "No suggestions." report.suggestions ++
  ["## Detailed feedback", ""] ++
  (remarks report.feedback).flatMap fun remark => ["### " ++ remark.1, remark.2, ""]

def render (assessment : Assessment) : Format → String
  | .text => Text.ofLines assessment.textLines
  | .json => Json.encodePretty assessment.toJson
  | .markdown => Text.ofLines assessment.markdownLines

end Assessment

end Appraisal
