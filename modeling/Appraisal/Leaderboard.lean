import Appraisal.Summary

/-!
# The leaderboard

The best analyses of a server in the order of their rank, and the renderings of such a list.
-/

namespace Appraisal.Leaderboard

/-- The entries in an answer of a server. -/
def ofJson? (document : Json) : Option (List RankedAnalysis) := do
  match ← Json.record? ["leaderboard"] document with
  | [entries] => Json.required (Json.asList? RankedAnalysis.ofJson?) entries
  | _ => none

def toJson (entries : List RankedAnalysis) : Json := .array (entries.map RankedAnalysis.toJson)

def author (entry : RankedAnalysis) : String := entry.userName.getD "anonymous"

/-- An entry and its rank in a line of plain text. -/
def textLine (ranked : RankedAnalysis × Nat) : String :=
  let (entry, rank) := ranked
  Text.padLeft 3 (toString rank) ++ ". " ++
    Text.padLeft 3 (toString entry.analysis.overallScore.toInt) ++ "  " ++ entry.analysis.title ++
    " by " ++ author entry ++ " (" ++ entry.analysis.language ++ ", " ++
    entry.analysis.targetCompany ++ ")"

/-- An entry and its rank in a row of a table. -/
def markdownRow (ranked : RankedAnalysis × Nat) : String :=
  let (entry, rank) := ranked
  "| " ++ toString rank ++ " | " ++ toString entry.analysis.overallScore.toInt ++ " | " ++
    entry.analysis.title ++ " | " ++ author entry ++ " | " ++ entry.analysis.language ++ " | " ++
    entry.analysis.targetCompany ++ " |"

/-- What is shown for an empty list. -/
def placeholder : String := "No analyses yet."

def textLines (entries : List RankedAnalysis) : List String :=
  if entries.isEmpty then [placeholder] else (entries.zipIdx 1).map textLine

def markdownLines (entries : List RankedAnalysis) : List String :=
  ["# CodeMeter Leaderboard", ""] ++
    if entries.isEmpty then [placeholder]
    else ["| Rank | Score | Title | User | Language | Company |",
        "| --- | --- | --- | --- | --- | --- |"] ++ (entries.zipIdx 1).map markdownRow

def render (entries : List RankedAnalysis) : Format → String
  | .text => Text.ofLines (textLines entries)
  | .json => Json.encodePretty (toJson entries)
  | .markdown => Text.ofLines (markdownLines entries)

end Appraisal.Leaderboard
