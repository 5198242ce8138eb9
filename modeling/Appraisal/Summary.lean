import Appraisal.Assessment

/-!
# Summaries of stored analyses

What a client takes from the answers of a server: a stored analysis, the receipt for a submission,
and the entries of the leaderboard. Fields that it has no use for are passed over.
-/

namespace Appraisal

structure AnalysisSummary where
  id : String
  title : String
  language : String
  targetCompany : String
  overallScore : Int32
  report : Report
  createdAt : String
deriving DecidableEq

/-- The answer to a submission. -/
structure Receipt where
  analysis : AnalysisSummary
  source : Source
deriving DecidableEq

/-- An entry of the leaderboard, with the name of its author. -/
structure RankedAnalysis where
  analysis : AnalysisSummary
  userName : Option String
deriving DecidableEq

namespace AnalysisSummary

def keys : List String :=
  ["id", "title", "language", "targetCompany", "overallScore", "analysisResult", "createdAt"]

def toJson (analysis : AnalysisSummary) : Json := .object [
  Json.field "id" (.text analysis.id),
  Json.field "title" (.text analysis.title),
  Json.field "language" (.text analysis.language),
  Json.field "targetCompany" (.text analysis.targetCompany),
  Json.field "overallScore" (.int analysis.overallScore.toInt),
  Json.field "analysisResult" analysis.report.toJson,
  Json.field "createdAt" (.text analysis.createdAt)]

def ofJson? (document : Json) : Option AnalysisSummary := do
  match ← Json.record? keys document with
  | [id, title, language, company, score, report, created] => return {
      id := ← Json.required Json.asText? id
      title := ← Json.required Json.asText? title
      language := ← Json.required Json.asText? language
      targetCompany := ← Json.required Json.asText? company
      overallScore := ← Json.required Json.asInt32? score
      report := ← Json.required Report.ofJson? report
      createdAt := ← Json.required Json.asText? created }
  | _ => none

end AnalysisSummary

def Receipt.ofJson? (document : Json) : Option Receipt := do
  match ← Json.record? ["analysis", "source"] document with
  | [analysis, source] => return {
      analysis := ← Json.required AnalysisSummary.ofJson? analysis
      source := ← Json.required Json.asGrade? source }
  | _ => none

/-- The assessment that a receipt tells of. -/
def Receipt.assessment (receipt : Receipt) : Assessment where
  subject := receipt.analysis.title
  language := .parse receipt.analysis.language
  targetCompany := receipt.analysis.targetCompany
  source := receipt.source
  report := receipt.analysis.report

namespace RankedAnalysis

def toJson (entry : RankedAnalysis) : Json := .object [
  Json.field "analysis" entry.analysis.toJson,
  Json.field "userName" (.text? entry.userName)]

def ofJson? (document : Json) : Option RankedAnalysis := do
  match ← Json.record? ["analysis", "userName"] document with
  | [analysis, name] => return {
      analysis := ← Json.required AnalysisSummary.ofJson? analysis
      userName := ← Json.optional Json.asText? name }
  | _ => none

end RankedAnalysis

end Appraisal
