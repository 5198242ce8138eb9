import Appraisal.Json.Reader
import Appraisal.Report
import Appraisal.Text.Search

/-!
# Replies of a language model

A reply should be the JSON object of a report, perhaps in a code fence. Any object is accepted:
missing, wrong or blank fields take a default, numbers are held in range and lists are cut. Only a
text that is no JSON, or no object, is refused.
-/

namespace Appraisal

/-- Why a reply is no report. -/
inductive ReplyFault where
  | malformed
  | notObject (found : String)
deriving DecidableEq, Repr

/-- The text of a fault, if it has words of its own. -/
def ReplyFault.message? : ReplyFault → Option String
  | .malformed => none
  | .notObject found => some ("expected a JSON object, got " ++ found)

namespace Reply

def fence : List Char := "```".toList

/-- What follows an opening fence, with the word `json` or without. -/
def afterFence? (text : List Char) : Option (List Char) :=
  (Text.dropStart? (fence ++ "json".toList) text).or (Text.dropStart? fence text)

/-- A reply without the blanks and the fence around it. -/
def body (reply : List Char) : List Char :=
  match afterFence? (Text.trim reply) with
  | none => Text.trim reply
  | some rest => Text.trimEnd (Text.dropEnd fence (Text.trimStart rest))

/-- What a document is, in words. -/
def describe : Json → String
  | .null => "null"
  | .bool _ => "a boolean"
  | .number _ => "a number"
  | .string _ => "a string"
  | .array _ => "an array"
  | .object _ => "an object"

abbrev Fields := List (Option String × Json)

def string? (fields : Fields) (key : String) : Option String :=
  (Json.lookup fields key).bind fun
    | .string content => content
    | _ => none

/-- The string at a key, unless it is blank. -/
def filled? (fields : Fields) (key : String) : Option String :=
  (string? fields key).filter fun text => !Text.isBlank text

def grade? {α : Type} [Rating α] (fields : Fields) (key : String) : Option α :=
  (string? fields key).bind Rating.parse?

/-- The number at a key, also one written in a string, if there is any. -/
def amount? (fields : Fields) (key : String) : Option Binary64 :=
  (Json.lookup fields key).bind fun
    | .number literal => (literal.value?).map Json.Number.toBinary64
    | .string content => content.bind fun text => Binary64.read? (Text.trim text.toList)
    | _ => none

/-- The number at a key, rounded and held between zero and a bound; zero when there is none. -/
def count (fields : Fields) (key : String) (bound : Nat) : Nat :=
  match amount? fields key with
  | some x => x.round.clampNat 0 bound
  | none => 0

/-- The strings of the list at a key, up to a number of them. -/
def strings (fields : Fields) (key : String) (most : Nat) : List String :=
  match Json.lookup fields key with
  | some (.array items) => (items.filterMap Json.asText?).take most
  | _ => []

/-- The fields of the object at a key, none when there is no object. -/
def object (fields : Fields) (key : String) : Fields :=
  match Json.lookup fields key with
  | some (.object fields) => fields
  | _ => []

def feedback (fields : Fields) : Feedback where
  algorithmEfficiency :=
    (filled? fields "algorithmEfficiency").getD "Algorithm efficiency analysis completed."
  codeReadability := (filled? fields "codeReadability").getD "Code readability analysis completed."
  bestPractices := (filled? fields "bestPractices").getD "Best practices analysis completed."
  performanceOptimization :=
    (filled? fields "performanceOptimization").getD "Performance optimization analysis completed."

/-- The report that the fields of an object make. -/
def ofFields (fields : Fields) : Report where
  overallScore := .ofNat (count fields "overallScore" 100)
  timeComplexity := (filled? fields "timeComplexity").getD "O(n)"
  spaceComplexity := (filled? fields "spaceComplexity").getD "O(1)"
  languagePerformance := (grade? fields "languagePerformance").getD .medium
  dataStructures := (grade? fields "dataStructures").getD .good
  redundantLogic := .ofNat (count fields "redundantLogic" 0xFFFFFFFF)
  modularity := (grade? fields "codeModularity").getD .good
  benchmark := (grade? fields "companyBenchmark").getD .meetsRequirements
  suggestions := strings fields "suggestions" suggestionLimit
  strengths := strings fields "strengths" strengthLimit
  weaknesses := strings fields "weaknesses" weaknessLimit
  explanation := (filled? fields "explanation").getD "Analysis completed successfully."
  feedback := feedback (object fields "detailedFeedback")

/-- The document of a reply, if its text is JSON that has a value. -/
def document? (reply : String) : Option Json :=
  (Json.parse? (body reply.toList)).filter (Json.sound Json.maxDepth)

def report (reply : String) : Except ReplyFault Report :=
  match document? reply with
  | none => .error .malformed
  | some (.object fields) => .ok (ofFields fields)
  | some other => .error (.notObject (describe other))

end Reply

end Appraisal
