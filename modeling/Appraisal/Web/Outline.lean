import Appraisal.Json.Basic

/-!
# Outline of the interface

What the server offers, in the terms of an OpenAPI document: its paths with their parameters and
responses, the names of its schemas, and the groups that paths belong to.
-/

namespace Appraisal.Web.Outline

/-- A parameter of a path: its name, where it stands and what it means. -/
structure Parameter where
  name : String
  place : String
  description : String

/-- A path with one method: its group, its parameters, and its responses by status code. -/
structure Operation where
  method : String
  path : String
  tag : String
  parameters : List Parameter
  responses : List (Nat × String)

def limitParameter : Parameter := ⟨"limit", "query", "Page size, 1-100, default 10"⟩

def operations : List Operation := [
  { method := "get", path := "/analyze", tag := "analysis", parameters := []
    responses := [(200, "Analysis service status")] },
  { method := "post", path := "/analyze", tag := "analysis", parameters := []
    responses := [(200, "Stored analysis"), (400, "Missing required fields"),
      (500, "Failed to save analysis")] },
  { method := "get", path := "/analysis/\x7bid\x7d", tag := "analysis"
    parameters := [⟨"id", "path", "Analysis identifier"⟩]
    responses := [(200, "Stored analysis"), (404, "Analysis not found")] },
  { method := "get", path := "/user/analyses", tag := "analysis"
    parameters := [⟨"userId", "query", "User identifier"⟩, limitParameter]
    responses := [(200, "User analyses"), (400, "User ID is required")] },
  { method := "get", path := "/leaderboard", tag := "leaderboard"
    parameters := [limitParameter], responses := [(200, "Top analyses")] },
  { method := "get", path := "/openapi.json", tag := "system", parameters := []
    responses := [(200, "OpenAPI document")] }]

/-- The names of the schemas, sorted. -/
def schemas : List String := [
  "AnalysisLookupResponse", "AnalysisRecord", "AnalysisReport", "AnalysisSource",
  "AnalyzeRequest", "AnalyzeResponse", "CodeModularity", "CompanyBenchmark", "DataStructures",
  "DetailedFeedback", "ErrorResponse", "FeatureFlags", "LanguagePerformance",
  "LeaderboardEntry", "LeaderboardResponse", "ProbeResponse", "UserAnalysesResponse"]

/-- The groups of paths, each with its description. -/
def tags : List (String × String) :=
  [("analysis", "Code analysis"), ("leaderboard", "Top scores"),
    ("system", "System endpoints")]

def parameterJson (parameter : Parameter) : Json := .object [
  Json.field "name" (.text parameter.name),
  Json.field "in" (.text parameter.place),
  Json.field "description" (.text parameter.description)]

def responseJson (response : Nat × String) : Option String × Json :=
  Json.field (toString response.1) (.object [Json.field "description" (.text response.2)])

def operationJson (operation : Operation) : Json := .object [
  Json.field "tags" (.texts [operation.tag]),
  Json.field "parameters" (.array (operation.parameters.map parameterJson)),
  Json.field "responses" (.object (operation.responses.map responseJson))]

/-- The operations of a path by their methods. -/
def pathJson (path : String) : Json := .object
  ((operations.filter fun operation => operation.path == path).map fun operation =>
    Json.field operation.method (operationJson operation))

/-- The outline as a document, with the names of the schemas alone. -/
def document : Json := .object [
  Json.field "openapi" (.text "3.0.3"),
  Json.field "paths" (.object ((operations.map (·.path)).eraseDups.map fun path =>
    Json.field path (pathJson path))),
  Json.field "components" (.object [Json.field "schemas" (.object (schemas.map fun name =>
    Json.field name (.object [])))]),
  Json.field "tags" (.array (tags.map fun tag => .object [
    Json.field "name" (.text tag.1), Json.field "description" (.text tag.2)]))]

end Appraisal.Web.Outline
