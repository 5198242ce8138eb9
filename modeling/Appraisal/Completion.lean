import Appraisal.Consultation
import Appraisal.Http
import Appraisal.Json.Reader
import Appraisal.Json.Writer

/-!
# Chat completions

A provider of language models behind an HTTP interface. `Provider.ask` posts a conversation and
takes the text of the first choice in the reply. Without a key nothing is sent.
-/

namespace Appraisal

/-- A provider: its address, the key to it, and the model to be asked. -/
structure Provider where
  address : String
  key : Option String
  model : String
deriving DecidableEq, Repr

namespace Provider

def defaultAddress : String := "https://api.groq.com/openai/v1"

def defaultModel : String := "llama-3.1-70b-versatile"

/-- A provider; a blank key counts as none. -/
def create (address : String) (key : Option String) (model : String) : Provider :=
  ⟨address, key.filter fun key => !Text.isBlank key, model⟩

/-- The provider that environment variables describe. -/
def ofEnvironment (lookup : String → Option String) : Provider :=
  create ((lookup "GROQ_API_URL").getD defaultAddress) (lookup "GROQ_API_KEY")
    ((lookup "GROQ_MODEL").getD defaultModel)

def configured (provider : Provider) : Bool := provider.key.isSome

/-- The temperature of the model, one tenth. -/
def temperature : Json := .number ⟨false, ['0'], ['1'], none⟩

def tokenLimit : Int := 4000

/-- The body of the request for a conversation. -/
def body (provider : Provider) (messages : List Message) : Json := .object [
  Json.field "model" (.text provider.model),
  Json.field "messages" (.array (messages.map Message.toJson)),
  Json.field "temperature" temperature,
  Json.field "max_tokens" (.int tokenLimit)]

/-- The address that conversations are sent to. -/
def endpoint (provider : Provider) : String :=
  String.ofList (Http.dropSlashes provider.address.toList) ++ "/chat/completions"

def request (provider : Provider) (key : String) (messages : List Message) : Http.Request where
  method := .post
  url := provider.endpoint
  token := some key
  body := (provider.body messages).encode

/-- The text of a message in a reply, if it has one. -/
def content? (document : Json) : Option (Option String) := do
  match ← Json.record? ["content"] document with
  | [content] => Json.optional Json.asText? content
  | _ => none

/-- The text of a choice in a reply, if it has a message with a text. -/
def choice? (document : Json) : Option (Option String) := do
  match ← Json.record? ["message"] document with
  | [message] => return (← Json.optional content? message).join
  | _ => none

/-- The texts of the choices in a reply. A reply without choices has an empty list of them. -/
def choices? : Json → Option (List (Option String))
  | .array [] => some []
  | document => do
    match ← Json.record? ["choices"] document with
    | [none] => return []
    | [some choices] => Json.asList? choice? choices
    | _ => none

/-- The text that a reply holds: that of the first choice, unless it is blank. -/
def answer (network : Http.Network) (reply : Http.Reply) : Except Failure String :=
  if !Http.isSuccess reply.status then
    .error (.provider
      ("groq api error (" ++ Http.statusLine reply.status ++ "): " ++ network.text reply))
  else match (Json.ofBytes? reply.body).bind choices? with
    | none => .error (.parse (some "groq response decode failed"))
    | some choices =>
      match choices.head?.join.filter fun content => !Text.isBlank content with
      | some content => .ok content
      | none => .error (.provider "no response from groq")

/-- The requests that a conversation leads to, and the text that comes back. -/
def ask (provider : Provider) (network : Http.Network) (messages : List Message) :
    List Http.Request × Except Failure String :=
  match provider.key with
  | none => ([], .error (.provider "GROQ_API_KEY is required"))
  | some key =>
    if !Http.isHeaderText key then ([], .error (.provider "groq request failed"))
    else
      let (sent, delivery) := network.send Http.redirectLimit (provider.request key messages)
      (sent, match delivery with
        | .failed => .error (.provider "groq request failed")
        | .answered reply => answer network reply)

/-- The provider's model, reached over a network. -/
def asModel (provider : Provider) (network : Http.Network) : Model := fun messages =>
  (provider.ask network messages).2

end Provider

end Appraisal
