import Appraisal.Request
import Appraisal.Text.Space

/-!
# Postings

The message that submits a source text, as a client writes it (`Posting`) and as a server reads
it: first with every field optional (`Draft`), then with all of them present (`Submission`).
-/

namespace Appraisal

/-- A source text submitted by a user. -/
structure Posting where
  code : String
  language : String
  targetCompany : String
  userId : String
  title : Option String
deriving DecidableEq, Repr

/-- A submission as it arrives, with any field missing. -/
structure Draft where
  code : Option String
  language : Option String
  targetCompany : Option String
  userId : Option String
  title : Option String
deriving DecidableEq, Repr

/-- A submission with everything that it needs. -/
structure Submission where
  code : String
  language : Language
  targetCompany : String
  userId : String
  title : String
deriving DecidableEq, Repr

def Submission.request (submission : Submission) : Request :=
  ⟨submission.code, submission.language, submission.targetCompany⟩

namespace Posting

def keys : List String := ["code", "language", "targetCompany", "userId", "title"]

/-- The document of a posting, without a title if there is none. -/
def toJson (posting : Posting) : Json := .object ([
  Json.field "code" (.text posting.code),
  Json.field "language" (.text posting.language),
  Json.field "targetCompany" (.text posting.targetCompany),
  Json.field "userId" (.text posting.userId)] ++
  match posting.title with
  | none => []
  | some title => [Json.field "title" (.text title)])

def ofJson? (document : Json) : Option Posting := do
  match ← Json.record? keys document with
  | [code, language, company, user, title] => return {
      code := ← Json.required Json.asText? code
      language := ← Json.required Json.asText? language
      targetCompany := ← Json.required Json.asText? company
      userId := ← Json.required Json.asText? user
      title := ← Json.optional Json.asText? title }
  | _ => none

end Posting

def nonBlank? (text : Option String) : Option String := text.filter fun text => !Text.isBlank text

namespace Draft

def ofJson? (document : Json) : Option Draft := do
  match ← Json.record? Posting.keys document with
  | [code, language, company, user, title] => return {
      code := ← Json.optional Json.asText? code
      language := ← Json.optional Json.asText? language
      targetCompany := ← Json.optional Json.asText? company
      userId := ← Json.optional Json.asText? user
      title := ← Json.optional Json.asText? title }
  | _ => none

/-- The title of a submission that has none. -/
def defaultTitle (language : Language) : String := language.tag ++ " Analysis"

/-- The submission that a draft makes; none when a field it needs is missing or blank. -/
def submission? (draft : Draft) : Option Submission := do
  let code ← nonBlank? draft.code
  let language ← nonBlank? draft.language
  let company ← nonBlank? draft.targetCompany
  let user ← nonBlank? draft.userId
  let language := Language.parse language
  return ⟨code, language, company, user, (nonBlank? draft.title).getD (defaultTitle language)⟩

end Draft

end Appraisal
