import Appraisal.Json.Reader
import Appraisal.Archive.Database

/-!
# Records

A stored analysis as the server shows it, with its report decoded.
-/

namespace Appraisal

/-- A stored analysis with its report. -/
structure Record where
  id : String
  userId : String
  title : String
  code : String
  language : String
  targetCompany : String
  overallScore : Int32
  timeComplexity : String
  spaceComplexity : String
  report : Report
  fileUrl : Option String
  createdAt : String
deriving DecidableEq

namespace Record

/-- The record of a row; none when its report cannot be decoded. -/
def ofRow? (row : AnalysisRow) : Option Record := do
  let report ← (Json.parse? row.report.toList).bind Report.ofJson?
  return {
    id := row.id
    userId := row.userId
    title := row.title
    code := row.code
    language := row.language
    targetCompany := row.targetCompany
    overallScore := row.overallScore
    timeComplexity := row.timeComplexity
    spaceComplexity := row.spaceComplexity
    report := report
    fileUrl := row.fileUrl
    createdAt := row.createdAt.text }

def keys : List String :=
  ["id", "userId", "title", "code", "language", "targetCompany", "overallScore",
    "timeComplexity", "spaceComplexity", "analysisResult", "fileUrl", "createdAt"]

def toJson (record : Record) : Json := .object [
  Json.field "id" (.text record.id),
  Json.field "userId" (.text record.userId),
  Json.field "title" (.text record.title),
  Json.field "code" (.text record.code),
  Json.field "language" (.text record.language),
  Json.field "targetCompany" (.text record.targetCompany),
  Json.field "overallScore" (.int record.overallScore.toInt),
  Json.field "timeComplexity" (.text record.timeComplexity),
  Json.field "spaceComplexity" (.text record.spaceComplexity),
  Json.field "analysisResult" record.report.toJson,
  Json.field "fileUrl" (.text? record.fileUrl),
  Json.field "createdAt" (.text record.createdAt)]

def ofJson? (document : Json) : Option Record := do
  match ← Json.record? keys document with
  | [id, user, title, code, language, company, score, time, space, report, file, created] =>
    return {
      id := ← Json.required Json.asText? id
      userId := ← Json.required Json.asText? user
      title := ← Json.required Json.asText? title
      code := ← Json.required Json.asText? code
      language := ← Json.required Json.asText? language
      targetCompany := ← Json.required Json.asText? company
      overallScore := ← Json.required Json.asInt32? score
      timeComplexity := ← Json.required Json.asText? time
      spaceComplexity := ← Json.required Json.asText? space
      report := ← Json.required Report.ofJson? report
      fileUrl := ← Json.optional Json.asText? file
      createdAt := ← Json.required Json.asText? created }
  | _ => none

end Record

end Appraisal
