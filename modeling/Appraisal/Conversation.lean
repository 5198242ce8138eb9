import Appraisal.Report
import Appraisal.Request

/-!
# Conversations

The two messages that ask a language model for a report: who it is to be, and the code with the
form of the answer. The code, the language and the company stand in them as they are.
-/

namespace Appraisal

/-- A message of a conversation and the role of its author. -/
structure Message where
  role : String
  content : String
deriving DecidableEq, Repr

namespace Message

/-- A message that says who the model is to be. -/
def system (content : String) : Message := ⟨"system", content⟩

/-- A message that asks the model. -/
def user (content : String) : Message := ⟨"user", content⟩

def toJson (message : Message) : Json := .object [
  Json.field "role" (.text message.role), Json.field "content" (.text message.content)]

end Message

namespace Request

/-- The role asked of the model: a reviewer of the target company. -/
def roleText (request : Request) : String :=
  "You are a senior software engineer and code reviewer specializing in " ++
    request.targetCompany ++ " technical interviews. You must analyze the ACTUAL code provided " ++
    "and give specific, detailed feedback. Always respond with valid JSON only. " ++
    "Be thorough, specific, and critical but constructive."

/-- The form that an answer is to have. -/
def answerForm : List String := [
  "Respond with ONLY valid JSON in this exact format:",
  "\x7b",
  "  \"overallScore\": number (0-100),",
  "  \"timeComplexity\": \"O(...)\",",
  "  \"spaceComplexity\": \"O(...)\",",
  "  \"languagePerformance\": \"High|Medium|Low\",",
  "  \"dataStructures\": \"Optimal|Good|Suboptimal\",",
  "  \"redundantLogic\": number,",
  "  \"codeModularity\": \"Excellent|Good|Fair|Poor\",",
  "  \"companyBenchmark\": \"Exceeds Expectations|Meets Requirements|Below Expectations\",",
  "  \"suggestions\": [\"up to " ++ toString suggestionLimit ++ " specific suggestions\"],",
  "  \"strengths\": [\"up to " ++ toString strengthLimit ++ " specific strengths\"],",
  "  \"weaknesses\": [\"up to " ++ toString weaknessLimit ++ " specific weaknesses\"],",
  "  \"explanation\": \"why this code got this score\",",
  "  \"detailedFeedback\": \x7b",
  "    \"algorithmEfficiency\": \"...\",",
  "    \"codeReadability\": \"...\",",
  "    \"bestPractices\": \"...\",",
  "    \"performanceOptimization\": \"...\"",
  "  \x7d",
  "\x7d"]

/-- The question put to the model, line by line; the code may hold lines of its own. -/
def questionLines (request : Request) : List String := [
  "You are an expert code reviewer for " ++ request.targetCompany ++ ". Analyze this " ++
    request.language.tag ++ " code thoroughly and provide a comprehensive, specific assessment.",
  "",
  "Code to analyze:",
  "```" ++ request.language.tag,
  request.code,
  "```",
  "",
  "Requirements:",
  "1. Calculate the ACTUAL time and space complexity from the loops, recursion and data " ++
    "structures used",
  "2. Provide SPECIFIC suggestions based on the actual code issues you see",
  "3. Identify REAL strengths and weaknesses in this particular code",
  "4. Give a realistic score based on " ++ request.targetCompany ++ " standards",
  ""] ++ answerForm

def messages (request : Request) : List Message :=
  [.system request.roleText, .user (String.intercalate "\n" request.questionLines)]

end Request

end Appraisal
