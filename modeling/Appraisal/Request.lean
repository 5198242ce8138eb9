import Appraisal.Json.Record
import Appraisal.Language

/-!
# Requests

A source text to be assessed, with its language and the company whose bar applies.
-/

namespace Appraisal

/-- A source text to be assessed. -/
structure Request where
  code : String
  language : Language
  targetCompany : String
deriving DecidableEq, Repr

namespace Json

/-- The document of a language: its tag. -/
def language (value : Language) : Json := text value.tag

/-- A language, read from any spelling of its name. -/
def asLanguage? (document : Json) : Option Language := (asText? document).map Language.parse

end Json

namespace Request

def keys : List String := ["code", "language", "targetCompany"]

def toJson (request : Request) : Json := .object [
  Json.field "code" (.text request.code),
  Json.field "language" (.language request.language),
  Json.field "targetCompany" (.text request.targetCompany)]

def ofJson? (document : Json) : Option Request := do
  match ← Json.record? keys document with
  | [code, language, company] => return {
      code := ← Json.required Json.asText? code
      language := ← Json.required Json.asLanguage? language
      targetCompany := ← Json.required Json.asText? company }
  | _ => none

end Request

end Appraisal
