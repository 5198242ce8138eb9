import Appraisal.CommandLine.Parse
import Appraisal.FileTree
import Appraisal.Heuristic
import Appraisal.Http
import Appraisal.Json.Reader
import Appraisal.Leaderboard
import Appraisal.Posting

/-!
# Running commands

A command gives a text to show or fails with one cause. `Command.result` takes what it needs of the
world as arguments: how files are read, and the network. It sends at most one request of its own,
and what was sent is part of its result. `Command.run` also puts the text where it belongs.
-/

namespace Appraisal.CommandLine

/-- Why a command failed. -/
inductive CommandError where
  | file (error : FileError)
  | unknownLanguage (path : String)
  | missingServerUrl
  | missingUserId
  | undelivered
  | unreadable
  | refused (status : Nat) (message : String)
deriving DecidableEq, Repr

/-- The text of a failure that the program words itself. -/
def CommandError.message? : CommandError → Option String
  | .unknownLanguage path =>
    some ("cannot infer a language for " ++ path ++ "; pass --language")
  | .missingServerUrl => some "server url is required"
  | .missingUserId => some "user id is required"
  | .refused status message =>
    some ("server returned " ++ Http.statusLine status ++ ": " ++ message)
  | _ => none

/-- How a file is read. -/
abbrev Files := String → Except FileError ByteArray

/-- What was sent on the way to a value or a failure. -/
structure Attempt (α : Type) where
  sent : List Http.Request
  result : Except CommandError α

def readText (files : Files) (path : String) : Except CommandError String :=
  match files path with
  | .error error => .error (.file error)
  | .ok bytes => match String.fromUTF8? bytes with
    | some text => .ok text
    | none => .error (.file .notText)

/-- The address of a server, which must not be blank. -/
def serverAddress (address : String) : Except CommandError String :=
  match Http.normalAddress? address with
  | some address => .ok address
  | none => .error .missingServerUrl

/-- The language of the file to be assessed. -/
def sourceLanguage (source : SourceOptions) : Except CommandError Language :=
  match Path.languageOf? source.language source.file with
  | some language => .ok language
  | none => .error (.unknownLanguage source.file)

/-- The assessment of a file by the rules. -/
def assess (files : Files) (source : SourceOptions) : Except CommandError Assessment := do
  let code ← readText files source.file
  let language ← sourceLanguage source
  return {
    subject := Path.subject source.file
    language := language
    targetCompany := source.company
    source := .heuristic
    report := .heuristic code language source.company }

/-- The address of the server and the posting that submits a file. -/
def posting (files : Files) (source : SourceOptions) (userId : String) (title : Option String)
    (serverUrl : String) : Except CommandError (String × Posting) := do
  let address ← serverAddress serverUrl
  if Text.isBlank userId then throw .missingUserId
  let code ← readText files source.file
  let language ← sourceLanguage source
  return (address, {
    code := code
    language := language.tag
    targetCompany := source.company
    userId := Text.trimmed userId
    title := title })

/-- The error that a server names in the text of its reply, or else the whole text. -/
def serverMessage (text : String) : String :=
  let named := do
    match ← Json.record? ["error"] (← Json.parse? text.toList) with
    | [error] => Json.required Json.asText? error
    | _ => none
  named.getD text

/-- What the reply to a request holds. -/
def received {α : Type} (network : Http.Network) (read : Json → Option α) :
    Http.Delivery → Except CommandError α
  | .failed => .error .undelivered
  | .answered reply =>
    if !Http.isSuccess reply.status then
      .error (.refused reply.status (serverMessage (network.text reply)))
    else match (Json.ofBytes? reply.body).bind read with
      | some value => .ok value
      | none => .error .unreadable

/-- Sends a request and reads the reply. -/
def exchange {α : Type} (network : Http.Network) (read : Json → Option α)
    (request : Http.Request) : Attempt α :=
  let (sent, delivery) := network.send Http.redirectLimit request
  ⟨sent, received network read delivery⟩

def submitRequest (address : String) (posting : Posting) : Http.Request where
  method := .post
  url := address ++ "/api/analyze"
  body := posting.toJson.encode

def leaderboardRequest (address : String) (limit : UInt32) : Http.Request where
  method := .get
  url := address ++ "/api/leaderboard?limit=" ++ toString limit.toNat

def Attempt.map {α β : Type} (f : α → β) (attempt : Attempt α) : Attempt β :=
  ⟨attempt.sent, attempt.result.map f⟩

namespace Command

/-- How the result of a command is shown. -/
def output : Command → OutputOptions
  | .analyze _ output => output
  | .submit _ _ _ _ output => output
  | .leaderboard _ _ output => output

def file? : Command → Option String
  | .analyze source _ => some source.file
  | .submit source _ _ _ _ => some source.file
  | .leaderboard _ _ _ => none

def result (files : Files) (network : Http.Network) : Command → Attempt String
  | .analyze source output =>
    ⟨[], (assess files source).map fun assessment => assessment.render output.format⟩
  | .submit source userId title serverUrl output =>
    match posting files source userId title serverUrl with
    | .error error => ⟨[], .error error⟩
    | .ok (address, posting) =>
      (exchange network Receipt.ofJson? (submitRequest address posting)).map fun receipt =>
        receipt.assessment.render output.format
  | .leaderboard limit serverUrl output =>
    match serverAddress serverUrl with
    | .error error => ⟨[], .error error⟩
    | .ok address =>
      (exchange network Leaderboard.ofJson? (leaderboardRequest address limit)).map fun entries =>
        Leaderboard.render entries output.format

end Command

/-- What a run of a command leaves: the requests it sent, what it printed, the files after it, and
its failure if it failed. -/
structure Outcome where
  sent : List Http.Request
  printed : String
  files : FileTree
  failure : Option CommandError

/-- Runs a command on a file tree. The text goes to the file that the options name, or else is
printed. Where the file cannot be written, the folders that were made for it stay. -/
def Command.run (command : Command) (tree : FileTree) (network : Http.Network) : Outcome :=
  let attempt := command.result tree.read network
  match attempt.result with
  | .error error => ⟨attempt.sent, "", tree, some error⟩
  | .ok text =>
    match command.output.file with
    | none => ⟨attempt.sent, text, tree, none⟩
    | some path =>
      match tree.writeBelow path text.toUTF8 with
      | .ok tree => ⟨attempt.sent, "", tree, none⟩
      | .error error =>
        ⟨attempt.sent, "", (tree.makeFoldersAbove path).1, some (.file error)⟩

end Appraisal.CommandLine
