import Appraisal.Conversation
import Appraisal.Heuristic
import Appraisal.Reply

/-!
# Consulting a language model

A request is put to a model if there is one, and to the rules when the model gives no report. So
`Request.consult` always has a report, and the outcome says where it comes from and what the
model was asked.
-/

namespace Appraisal

/-- Why a model gave no report: it could not be asked, or its answer could not be read. What is no
JSON has no message: that is left to the JSON library. -/
inductive Failure where
  | provider (message : String)
  | parse (message? : Option String)
deriving DecidableEq, Repr

/-- The text of a failure, if it has a message. -/
def Failure.text? : Failure → Option String
  | .provider message => some ("provider error: " ++ message)
  | .parse message? => message?.map fun message => "parse error: " ++ message

/-- A language model: the text it answers to a conversation, or why there is none. -/
abbrev Model := List Message → Except Failure String

/-- A report, where it comes from, and the conversations that were put to a model for it. -/
structure Outcome where
  report : Report
  source : Source
  asked : List (List Message)
deriving DecidableEq

namespace Request

/-- The report in the answer of a model. -/
def modelReport (answer : Except Failure String) : Except Failure Report :=
  match answer with
  | .error failure => .error failure
  | .ok reply =>
    if Text.isBlank reply then .error (.provider "empty completion from provider")
    else match Reply.report reply with
      | .ok report => .ok report
      | .error fault => .error (.parse fault.message?)

/-- The report on a request, by the model if there is one and it gives a report. -/
def consult (model : Option Model) (request : Request) : Outcome :=
  match model with
  | none => ⟨request.heuristicReport, .heuristic, []⟩
  | some answer =>
    match modelReport (answer request.messages) with
    | .ok report => ⟨report, .ai, [request.messages]⟩
    | .error _ => ⟨request.heuristicReport, .heuristic, [request.messages]⟩

end Request

end Appraisal
