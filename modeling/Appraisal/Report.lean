import Appraisal.Json.Record
import Appraisal.Rating

/-!
# Reports

The assessment of one submission, and its form as a JSON record with `Report.toJson` and
`Report.ofJson?`.
-/

namespace Appraisal

/-- The most suggestions that a report made here carries. -/
def suggestionLimit : Nat := 6

def strengthLimit : Nat := 5

def weaknessLimit : Nat := 5

/-- Remarks on four areas of a submission. -/
structure Feedback where
  algorithmEfficiency : String
  codeReadability : String
  bestPractices : String
  performanceOptimization : String
deriving DecidableEq, Repr

/-- The assessment of one submission. -/
structure Report where
  overallScore : UInt8
  timeComplexity : String
  spaceComplexity : String
  languagePerformance : LanguagePerformance
  dataStructures : DataStructures
  redundantLogic : UInt32
  modularity : Modularity
  benchmark : Benchmark
  suggestions : List String
  strengths : List String
  weaknesses : List String
  explanation : String
  feedback : Feedback
deriving DecidableEq, Repr

/-- What produced a report: a language model or the rules of this library. -/
inductive Source where
  | ai
  | heuristic
deriving DecidableEq, Repr

instance : Rating Source where
  grades := [.ai, .heuristic]
  label
    | .ai => "ai"
    | .heuristic => "heuristic"

def Source.label (source : Source) : String := Rating.label source

namespace Json

def grade {α : Type} [Rating α] (value : α) : Json := text (Rating.label value)

/-- A grade, named by its exact label. -/
def asGrade? {α : Type} [Rating α] (document : Json) : Option α :=
  (asWord? document).bind Rating.ofLabel?

@[simp] theorem asGrade?_grade {α : Type} [Rating α] (value : α) :
    asGrade? (grade value) = some value := by
  simp [asGrade?, grade, text, asWord?]

end Json

namespace Feedback

def keys : List String :=
  ["algorithmEfficiency", "codeReadability", "bestPractices", "performanceOptimization"]

def toJson (feedback : Feedback) : Json := .object [
  Json.field "algorithmEfficiency" (.text feedback.algorithmEfficiency),
  Json.field "codeReadability" (.text feedback.codeReadability),
  Json.field "bestPractices" (.text feedback.bestPractices),
  Json.field "performanceOptimization" (.text feedback.performanceOptimization)]

def ofJson? (document : Json) : Option Feedback := do
  match ← Json.record? keys document with
  | [efficiency, readability, practices, optimization] => return {
      algorithmEfficiency := ← Json.required Json.asText? efficiency
      codeReadability := ← Json.required Json.asText? readability
      bestPractices := ← Json.required Json.asText? practices
      performanceOptimization := ← Json.required Json.asText? optimization }
  | _ => none

end Feedback

namespace Report

def keys : List String :=
  ["overallScore", "timeComplexity", "spaceComplexity", "languagePerformance", "dataStructures",
    "redundantLogic", "codeModularity", "companyBenchmark", "suggestions", "strengths",
    "weaknesses", "explanation", "detailedFeedback"]

def toJson (report : Report) : Json := .object [
  Json.field "overallScore" (.int report.overallScore.toNat),
  Json.field "timeComplexity" (.text report.timeComplexity),
  Json.field "spaceComplexity" (.text report.spaceComplexity),
  Json.field "languagePerformance" (.grade report.languagePerformance),
  Json.field "dataStructures" (.grade report.dataStructures),
  Json.field "redundantLogic" (.int report.redundantLogic.toNat),
  Json.field "codeModularity" (.grade report.modularity),
  Json.field "companyBenchmark" (.grade report.benchmark),
  Json.field "suggestions" (.texts report.suggestions),
  Json.field "strengths" (.texts report.strengths),
  Json.field "weaknesses" (.texts report.weaknesses),
  Json.field "explanation" (.text report.explanation),
  Json.field "detailedFeedback" report.feedback.toJson]

def ofJson? (document : Json) : Option Report := do
  match ← Json.record? keys document with
  | [score, time, space, performance, structures, redundant, modularity, benchmark, suggestions,
      strengths, weaknesses, explanation, feedback] => return {
      overallScore := ← Json.required Json.asUInt8? score
      timeComplexity := ← Json.required Json.asText? time
      spaceComplexity := ← Json.required Json.asText? space
      languagePerformance := ← Json.required Json.asGrade? performance
      dataStructures := ← Json.required Json.asGrade? structures
      redundantLogic := ← Json.required Json.asUInt32? redundant
      modularity := ← Json.required Json.asGrade? modularity
      benchmark := ← Json.required Json.asGrade? benchmark
      suggestions := ← Json.required Json.asTexts? suggestions
      strengths := ← Json.required Json.asTexts? strengths
      weaknesses := ← Json.required Json.asTexts? weaknesses
      explanation := ← Json.required Json.asText? explanation
      feedback := ← Json.required Feedback.ofJson? feedback }
  | _ => none

end Report

end Appraisal
