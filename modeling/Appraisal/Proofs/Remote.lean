import Appraisal.Proofs.Replies
import Appraisal.Proofs.Storable

/-!
# Assessment by a server

A file that is submitted to a server without a model is assessed as it is without any server: both
commands show the same language, company, source and report (`client_agrees_with_server`). The two
go by the same rules, and between them stand the posting, the database and the receipt, each of
which gives back what it was given. What can come between are a posting that is too long to be read,
and texts that the database cannot hold: such a file is refused by the server and assessed without
it (`refused_of_nul`).
-/

namespace Appraisal

open Web (posted)
open Web.Exchange (firstStamp)

/-- What arrives of a posting at a server. -/
def Posting.arrival (posting : Posting) : Option Submission :=
  ((Json.parse? posting.toJson.encode.toList).bind Draft.ofJson?).bind Draft.submission?

theorem Json.head?_encode_object (fields : List (Option String × Json)) :
    (encode (.object fields)).toList.head? = some '\x7b' := by
  rw [encode, String.toList_ofList, compact]
  rfl

/-- Whether a network brings an answer to a client as this reply. What is written in an answer
without a document is left open. -/
structure Http.Network.Brings (network : Http.Network) (response : Web.Response)
    (reply : Http.Reply) : Prop where
  status : reply.status = response.status
  body : ∀ document ∈ response.body, reply.body = document.encode.toUTF8
  utf8 : response.body.isSome = true → network.foreignText? reply = none

/-- A submission of this body as it meets the same server without a model. -/
def Web.Exchange.unaided (exchange : Web.Exchange) (body : String) : Web.Exchange :=
  { exchange with request := posted body, model := none }

@[simp] theorem Web.Exchange.request_unaided (exchange : Web.Exchange) (body : String) :
    (exchange.unaided body).request = posted body := rfl

theorem Web.Exchange.Ready.unaided {exchange : Web.Exchange} {archive : Archive}
    (h : exchange.Ready archive) (body : String) : (exchange.unaided body).Ready archive where
  reachable := h.reachable
  working := h.working
  id := h.id
  fresh := h.fresh
  instant := h.instant
  room userId ho := h.room userId ⟨ho.build, ho.read, ho.full⟩

namespace CommandLine

/-- Whether a file holds this text, in this language, and can be submitted for this user. -/
structure Submittable (files : Files) (source : SourceOptions) (userId code : String)
    (language : Language) : Prop where
  file : files source.file = .ok code.toUTF8
  language : sourceLanguage source = .ok language
  code_filled : Text.isBlank code = false
  company_filled : Text.isBlank source.company = false
  user_filled : Text.isBlank userId = false

/-- Whether submissions to an address reach the server of an exchange, which has no model and a
database that works over this archive. -/
structure Serves (network : Http.Network) (address : String) (server : Web.Exchange)
    (archive : Archive) : Prop where
  reaches : network.reaches (address ++ "/api/analyze") = true
  answers : ∀ body : String, ∃ reply,
    network.deliver ⟨.post, address ++ "/api/analyze", none, body⟩ = .answered reply ∧
      network.Brings ((server.unaided body).handled archive).response reply
  ready : server.Ready archive

section Posting

variable {files : Files} {source : SourceOptions} {userId code serverUrl address : String}
  {language : Language}

theorem readText_of_toUTF8 {path : String} (h : files path = .ok code.toUTF8) :
    readText files path = .ok code := by
  have hutf8 : String.fromUTF8? code.toUTF8 = some code := dif_pos code.isValidUTF8
  rw [readText, h]
  simp only [hutf8]

theorem Submittable.portable (h : Submittable files source userId code language) :
    language.Portable := by
  have hl := h.language
  unfold sourceLanguage at hl
  split at hl
  · next other ho =>
    cases hl
    exact Path.portable_of_languageOf? ho
  · cases hl

/-- The posting of a file. -/
def filePosting (source : SourceOptions) (userId : String) (title : Option String) (code : String)
    (language : Language) : Posting :=
  ⟨code, language.tag, source.company, Text.trimmed userId, title⟩

theorem Submittable.posting (h : Submittable files source userId code language)
    (ha : serverAddress serverUrl = .ok address) (title : Option String) :
    posting files source userId title serverUrl =
      .ok (address, filePosting source userId title code language) := by
  simp only [CommandLine.posting, ha, h.user_filled, readText_of_toUTF8 h.file, h.language]
  rfl

theorem Submittable.assess (h : Submittable files source userId code language) :
    assess files source = .ok ⟨Path.subject source.file, language, source.company, .heuristic,
      .heuristic code language source.company⟩ := by
  simp only [CommandLine.assess, readText_of_toUTF8 h.file, h.language]
  rfl

/-- What is posted of a file arrives as the submission that it means. -/
theorem Submittable.arrival (h : Submittable files source userId code language)
    (title : Option String) :
    (filePosting source userId title code language).arrival =
      some ⟨code, language, source.company, Text.trimmed userId,
        (nonBlank? title).getD (language.tag ++ " Analysis")⟩ :=
  Posting.submission_of_encode rfl h.portable h.code_filled h.company_filled
    (Text.isBlank_trimmed h.user_filled)

/-- The tag of a file's language can be held exactly when the option that names it can. -/
theorem nul_notMem_tag_iff (h : sourceLanguage source = .ok language) :
    '\x00' ∉ language.tag.toList ↔ ∀ name ∈ source.language, '\x00' ∉ name.toList := by
  unfold sourceLanguage Path.languageOf? at h
  split at h
  · next other ho =>
    cases h
    split at ho
    · next name hname =>
      obtain rfl : Language.parse name = language := Option.some.inj ho
      have hnamed : source.language = some name := (Option.filter_eq_some_iff.1 hname).1
      rw [Language.nul_mem_tag_parse_iff, hnamed]
      simp
    · next hname =>
      obtain ⟨extension, -, he⟩ := Option.bind_eq_some_iff.1 ho
      obtain ⟨entry, hentry, rfl⟩ := Option.map_eq_some_iff.1 he
      have hknown : ∀ entry ∈ Path.extensions, '\x00' ∉ entry.2.tag.toList := by decide
      refine iff_of_true (hknown entry (List.mem_of_find?_eq_some hentry)) fun name hn => ?_
      have hb := Option.filter_eq_none_iff.1 hname name hn
      exact Text.nul_notMem_of_isBlank (by simpa using hb)
  · cases h

end Posting

/-- Whether the text of a reply names an error. -/
def Names (text error : String) : Prop :=
  ∃ document, Json.parse? text.toList = some document ∧
    Json.record? ["error"] document = some [some (.text error)]

section Answers

theorem serverMessage_of_names {text error : String} (h : Names text error) :
    serverMessage text = error := by
  obtain ⟨document, hparse, hrecord⟩ := h
  simp only [serverMessage, hparse, hrecord, Json.present_bind, Json.required_some,
    Json.asText?_text, Option.getD_some]

variable {network : Http.Network} {reply : Http.Reply}

theorem received_saved {record : Record} {origin : Source}
    (h : network.Brings (Web.saved record origin) reply) :
    received network Receipt.ofJson? (.answered reply) = .ok ⟨record.summary, origin⟩ := by
  have hsuccess : Http.isSuccess reply.status = true := by
    rw [h.status]
    rfl
  have hread : (Json.ofBytes? reply.body).bind Receipt.ofJson? = some ⟨record.summary, origin⟩ := by
    rw [h.body _ rfl, Json.ofBytes?_toUTF8]
    exact Web.receipt_of_saved record origin
  simp only [received, hsuccess, hread]
  rfl

/-- A client names the failure that the server names. -/
theorem received_problem {α : Type} (read : Json → Option α) {problem : Web.Problem}
    (h : network.Brings problem.response reply) :
    received network read (.answered reply) =
      .error (.refused problem.status problem.message) := by
  have hsuccess : Http.isSuccess reply.status = false := by
    rw [h.status]
    cases problem <;> rfl
  have hhead : problem.response.text.toList.head? ≠ some '\uFEFF' := by
    rw [show problem.response.text = Json.encode (.object _) from rfl, Json.head?_encode_object]
    decide
  have htext : network.text reply = problem.response.text :=
    Http.Network.text_of_toUTF8 (h.utf8 rfl) (h.body _ rfl) hhead
  have hparse : Json.parse? problem.response.text.toList = some (.object [
      Json.field "success" (.bool false), Json.field "error" (.text problem.message)]) :=
    Json.parse?_compact (Json.wellFormed_object (by simp [Json.field, Json.WellFormed]))
  have hmessage : serverMessage problem.response.text = problem.message :=
    serverMessage_of_names ⟨_, hparse, rfl⟩
  have hstatus : reply.status = problem.status := h.status
  rw [received, hsuccess, htext, hmessage, hstatus]
  rfl

/-- An answer that no handler gave is a failure with its status. -/
theorem received_rejected {α : Type} (read : Json → Option α) {status : Nat}
    (hs : Http.isSuccess status = false) (h : network.Brings (Web.rejected status) reply) :
    ∃ message, received network read (.answered reply) = .error (.refused status message) := by
  have hstatus : reply.status = status := h.status
  refine ⟨serverMessage (network.text reply), ?_⟩
  rw [received, hstatus, hs]
  rfl

end Answers

section Submission

variable {files : Files} {source : SourceOptions} {userId code serverUrl address : String}
  {language : Language} {network : Http.Network} {exchange server : Web.Exchange}
  {archive : Archive} {title : Option String}

/-- What is posted of a file, if it is not too long. -/
theorem submission?_posted (h : Submittable files source userId code language)
    (hr : exchange.request = posted (filePosting source userId title code language).toJson.encode)
    (hb : Web.isOverlong
      (posted (filePosting source userId title code language).toJson.encode) = false) :
    exchange.submission? = some ⟨code, language, source.company, Text.trimmed userId,
      (nonBlank? title).getD (language.tag ++ " Analysis")⟩ := by
  rw [Web.isOverlong_posted, decide_eq_false_iff_not, Nat.not_lt] at hb
  unfold Web.Exchange.submission?
  rw [hr, Web.route?_posted, Web.draft?_posted hb]
  exact Posting.submission?_draft rfl h.portable h.code_filled h.company_filled
    (Text.isBlank_trimmed h.user_filled)

/-- A posting that is too long is refused by the server before anything is done with it. -/
theorem handled_of_overlong {body : String} (hr : exchange.request = posted body)
    (hb : Web.isOverlong (posted body) = true) (archive : Archive) :
    (exchange.handled archive).response = Web.rejected 413 ∧ exchange.after archive = archive := by
  rw [Web.isOverlong_posted, decide_eq_true_iff] at hb
  obtain ⟨hdraft, hstatus⟩ := Web.draft?_of_overlong hb
  have hhandled : exchange.handled archive =
      ⟨Web.rejected 413, exchange.database? archive, []⟩ := by
    simp only [Web.Exchange.handled, Web.handle, hr, Web.route?_posted, Web.handleSubmission,
      hdraft, hstatus]
  refine ⟨congrArg Web.Handled.response hhandled, ?_⟩
  rw [Web.Exchange.after, hhandled]
  exact Web.Exchange.archive_database? exchange archive

theorem result_analyze (h : Submittable files source userId code language)
    (network : Http.Network) (output : OutputOptions) :
    (Command.analyze source output).result files network =
      ⟨[], .ok (Assessment.render ⟨Path.subject source.file, language, source.company, .heuristic,
        .heuristic code language source.company⟩ output.format)⟩ := by
  simp only [Command.result, h.assess]
  rfl

/-- The texts that a submission sends. -/
def sentTexts (source : SourceOptions) (userId code : String) (title : Option String) :
    List String :=
  [code, source.company, userId] ++ (source.language.toList ++ title.toList)

/-- What is sent can be held exactly when what arrives of it can. -/
theorem holdsTexts_columns (h : Submittable files source userId code language)
    (title : Option String) :
    Archive.holdsTexts (Submission.columns ⟨code, language, source.company, Text.trimmed userId,
      (nonBlank? title).getD (language.tag ++ " Analysis")⟩) =
      Archive.holdsTexts (sentTexts source userId code title) := by
  have htag := nul_notMem_tag_iff h.language
  have huser : '\x00' ∈ (Text.trimmed userId).toList ↔ '\x00' ∈ userId.toList := by
    rw [Text.trimmed, String.toList_ofList, Text.nul_mem_trim_iff]
  rw [Bool.eq_iff_iff, Archive.holdsTexts_iff, Archive.holdsTexts_iff]
  simp only [Submission.columns, sentTexts, List.forall_mem_append, List.forall_mem_cons,
    List.not_mem_nil, false_imp_iff, implies_true, and_true, huser, Option.mem_toList]
  constructor
  · rintro ⟨hu, ht, hc, hl, hco⟩
    exact ⟨⟨hc, hco, hu⟩, htag.1 hl, (Draft.nul_notMem_title_iff hl).1 ht⟩
  · rintro ⟨⟨hc, hco, hu⟩, hn, ht⟩
    have hl := htag.2 hn
    exact ⟨hu, (Draft.nul_notMem_title_iff hl).2 ht, hc, hl, hco⟩

/-- Whether the database of a server can store what a submission sends: its texts can be held, and
the id of the user is short enough for the indexes. -/
structure Keeps (server : Web.Exchange) (source : SourceOptions) (userId code : String)
    (title : Option String) : Prop where
  texts : Archive.holdsTexts (sentTexts source userId code title) = true
  user : server.indexable (Text.trimmed userId) = true

/-- A server takes exactly what its database can store. -/
theorem takes_unaided_iff (h : Submittable files source userId code language)
    (hr : server.Ready archive)
    (hb : Web.isOverlong
      (posted (filePosting source userId title code language).toJson.encode) = false) :
    (server.unaided (filePosting source userId title code language).toJson.encode).Takes archive
        ⟨code, language, source.company, Text.trimmed userId,
          (nonBlank? title).getD (language.tag ++ " Analysis")⟩ ↔
      Keeps server source userId code title := by
  have hready := hr.unaided (filePosting source userId title code language).toJson.encode
  constructor
  · rintro ⟨-, -, -, -, hidx, hadm⟩
    exact ⟨(holdsTexts_columns h title).symm.trans
      ((Web.Exchange.admits_iff hready.toStamped).1 hadm).1, hidx⟩
  · rintro ⟨ht, hu⟩
    exact ⟨submission?_posted h (server.request_unaided _) hb, hr.reachable, hr.working .insertUser,
      hr.working .insertAnalysis, hu, (Web.Exchange.admits_iff hready.toStamped).2
        ⟨(holdsTexts_columns h title).trans ht,
          Request.holdsTexts_heuristicReport ⟨code, language, source.company⟩⟩⟩

/-- A posting is answered by the server, and no other request follows it. -/
theorem send_of_serves (hn : Serves network address server archive) (posting : Posting)
    {response : Web.Response}
    (hr : ((server.unaided posting.toJson.encode).handled archive).response = response)
    (hs : Http.isRedirect response.status = false) :
    ∃ reply, network.Brings response reply ∧
      network.send Http.redirectLimit (submitRequest address posting) =
        ([submitRequest address posting], .answered reply) := by
  obtain ⟨reply, hreply, hbrings⟩ := hn.answers posting.toJson.encode
  rw [hr] at hbrings
  have hdeliver : network.deliver (submitRequest address posting) = .answered reply := hreply
  refine ⟨reply, hbrings, ?_⟩
  rw [← hdeliver]
  refine Http.Network.send_of_settled hn.reaches ?_ _
  rintro next ⟨other, hother, hnext⟩
  obtain rfl := Http.Delivery.answered.inj (hdeliver.symm.trans hother)
  rw [Http.Network.next?_of_not_isRedirect (hbrings.status ▸ hs)] at hnext
  cases hnext

/-- The result of a submission is made of the server's answer. -/
theorem result_of_serves (h : Submittable files source userId code language)
    (ha : serverAddress serverUrl = .ok address) (hn : Serves network address server archive)
    (output : OutputOptions) {response : Web.Response}
    (hr : ((server.unaided (filePosting source userId title code
      language).toJson.encode).handled archive).response = response)
    (hs : Http.isRedirect response.status = false) :
    ∃ reply, network.Brings response reply ∧
      ((Command.submit source userId title serverUrl output).result files network).result =
        (received network Receipt.ofJson? (.answered reply)).map fun receipt =>
          receipt.assessment.render output.format := by
  obtain ⟨reply, hbrings, hsent⟩ :=
    send_of_serves hn (filePosting source userId title code language) hr hs
  refine ⟨reply, hbrings, ?_⟩
  simp only [Command.result, h.posting ha, exchange, hsent, Attempt.map]

/-- A file is assessed by a server as it is without one, under the title that it is stored with, if
the posting can be read and stored. Otherwise it is refused. -/
theorem result_submit (h : Submittable files source userId code language)
    (ha : serverAddress serverUrl = .ok address) (hn : Serves network address server archive)
    (title : Option String) (output : OutputOptions)
    (hb : Web.isOverlong
      (posted (filePosting source userId title code language).toJson.encode) = false) :
    (Keeps server source userId code title →
      ((Command.submit source userId title serverUrl output).result files network).result =
        .ok (Assessment.render ⟨(nonBlank? title).getD (language.tag ++ " Analysis"), language,
          source.company, .heuristic, .heuristic code language source.company⟩ output.format)) ∧
    (¬ Keeps server source userId code title →
      ((Command.submit source userId title serverUrl output).result files network).result =
        .error (.refused 500 "Failed to save analysis")) := by
  have hready := hn.ready.unaided (filePosting source userId title code language).toJson.encode
  have hs := submission?_posted h (server.request_unaided _) hb
  have htakes := takes_unaided_iff h hn.ready hb
  constructor
  · intro hk
    have hstores := (htakes.2 hk).stores (hready.room _)
    obtain ⟨reply, hbrings, hresult⟩ :=
      result_of_serves h ha hn output hstores.response rfl
    rw [hresult, received_saved hbrings]
    -- the receipt has the tag of the language, which is read as the language again
    show Except.ok (Assessment.render ⟨_, .parse language.tag, _, _, _⟩ _) = _
    rw [h.portable.parse_tag]
    rfl
  · intro hk
    have hrefused := (Web.Exchange.refused_of_not_takes hs hready.reachable (mt htakes.1 hk)).1
    obtain ⟨reply, hbrings, hresult⟩ := result_of_serves h ha hn output hrefused rfl
    rw [hresult, received_problem _ hbrings]
    rfl

/-- A file whose posting is too long is refused. -/
theorem result_submit_overlong (h : Submittable files source userId code language)
    (ha : serverAddress serverUrl = .ok address) (hn : Serves network address server archive)
    (title : Option String) (output : OutputOptions)
    (hb : Web.isOverlong
      (posted (filePosting source userId title code language).toJson.encode) = true) :
    ∃ message,
      ((Command.submit source userId title serverUrl output).result files network).result =
        .error (.refused 413 message) := by
  have hrejected := (handled_of_overlong (server.request_unaided _) hb archive).1
  obtain ⟨reply, hbrings, hresult⟩ := result_of_serves h ha hn output hrejected rfl
  obtain ⟨message, hreceived⟩ := received_rejected Receipt.ofJson? rfl hbrings
  exact ⟨message, by rw [hresult, hreceived]; rfl⟩

end Submission

/-- Whether a file is assessed by a server as it is without one, under the title that it is stored
with, if the posting that is sent of it can be read and stored, and is refused otherwise. -/
structure Agrees (files : Files) (network : Http.Network) (server : Web.Exchange)
    (source : SourceOptions) (userId code : String) (title : Option String) (serverUrl : String)
    (output : OutputOptions) (sent : Posting) (assessment : Assessment) : Prop where
  analyzed : ((Command.analyze source output).result files network).result =
    .ok (assessment.render output.format)
  stored : Web.isOverlong (posted sent.toJson.encode) = false →
    Keeps server source userId code title →
      ((Command.submit source userId title serverUrl output).result files network).result =
        .ok (Assessment.render { assessment with
          subject := (nonBlank? title).getD (assessment.language.tag ++ " Analysis") }
            output.format)
  unstored : Web.isOverlong (posted sent.toJson.encode) = false →
    ¬ Keeps server source userId code title →
      ((Command.submit source userId title serverUrl output).result files network).result =
        .error (.refused 500 "Failed to save analysis")
  overlong : Web.isOverlong (posted sent.toJson.encode) = true → ∃ message,
    ((Command.submit source userId title serverUrl output).result files network).result =
      .error (.refused 413 message)

/-- Client and server agree. What is posted of a file arrives as the submission that it means,
unless it is too long to be read; the answers of a server are read with the fields that the client
takes of them; and a file is assessed by a server as it is without one, or refused if the posting is
too long or the database cannot store it. -/
theorem client_agrees_with_server :
    (∀ (files : Files) (source : SourceOptions) (userId code serverUrl address : String)
      (title : Option String) (language : Language),
      Submittable files source userId code language → serverAddress serverUrl = .ok address →
      ∃ sent, posting files source userId title serverUrl = .ok (address, sent) ∧
        sent.arrival = some ⟨code, language, source.company, Text.trimmed userId,
          (nonBlank? title).getD (language.tag ++ " Analysis")⟩ ∧
        (Web.isOverlong (posted sent.toJson.encode) = false → ∀ exchange : Web.Exchange,
          exchange.request = posted sent.toJson.encode →
            exchange.submission? = sent.arrival)) ∧
    (∀ (record : Record) (origin : Source),
      (Json.parse? (Web.saved record origin).text.toList).bind Receipt.ofJson? =
        some ⟨record.summary, origin⟩) ∧
    (∀ entries : List (Record × Option String),
      (Json.parse? (Web.success [Json.field "leaderboard"
        (.array (entries.map Web.rankedJson))]).text.toList).bind Leaderboard.ofJson? =
        some (entries.map fun entry => ⟨entry.1.summary, entry.2⟩)) ∧
    ∀ (files : Files) (source : SourceOptions) (userId code serverUrl address : String)
      (title : Option String) (language : Language) (network : Http.Network)
      (server : Web.Exchange) (archive : Archive) (output : OutputOptions),
      Submittable files source userId code language → serverAddress serverUrl = .ok address →
      Serves network address server archive →
      ∃ sent assessment, posting files source userId title serverUrl = .ok (address, sent) ∧
        Agrees files network server source userId code title serverUrl output sent assessment := by
  refine ⟨?_, Web.receipt_of_saved, Web.entries_of_ranking, ?_⟩
  · intro files source userId code serverUrl address title language h ha
    refine ⟨_, h.posting ha title, h.arrival title, fun hb exchange hr => ?_⟩
    rw [h.arrival title]
    exact submission?_posted h hr hb
  · intro files source userId code serverUrl address title language network server archive output
      h ha hn
    refine ⟨_, ⟨Path.subject source.file, language, source.company, .heuristic,
      .heuristic code language source.company⟩, h.posting ha title, ?_⟩
    exact
      { analyzed := congrArg Attempt.result (result_analyze h network output)
        stored := fun hb => (result_submit h ha hn title output hb).1
        unstored := fun hb => (result_submit h ha hn title output hb).2
        overlong := result_submit_overlong h ha hn title output }

section Example

/-- A server on a new archive, which takes every request for a submission. -/
def newServer : Http.Network where
  toLibrary := .plain
  deliver request :=
    let response := (((Web.Exchange.trial none).unaided request.body).handled .empty).response
    .answered ⟨response.status, none, some "application/json", response.text.toUTF8⟩

theorem serves_newServer {address : String}
    (h : Http.isAbsolute (address ++ "/api/analyze") = true) :
    Serves newServer address (.trial none) .empty where
  reaches := h
  answers body := by
    refine ⟨_, rfl, rfl, ?_, fun _ => rfl⟩
    rintro document hd
    rw [Web.Response.text, Option.mem_def.1 hd]
    rfl
  ready := Web.Exchange.ready_trial none

/-- The options for a file that is assessed for a company. -/
def program : SourceOptions := ⟨"main.py", none, "google"⟩

theorem submittable_program {code : String} (h : Text.isBlank code = false) :
    Submittable (fun _ => .ok code.toUTF8) program "ada" code .python where
  file := rfl
  language := by decide
  code_filled := h
  company_filled := by decide
  user_filled := by decide

theorem serverAddress_local : serverAddress "http://localhost/" = .ok "http://localhost" := by
  decide

theorem serves_local : Serves newServer "http://localhost" (.trial none) .empty :=
  serves_newServer (by decide)

theorem client_agrees_with_server_program : ∃ assessment : Assessment,
    ((Command.analyze program ⟨.json, none⟩).result (fun _ => .ok "return 1".toUTF8)
      newServer).result = .ok (assessment.render .json) ∧
    ((Command.submit program "ada" none "http://localhost/" ⟨.json, none⟩).result
      (fun _ => .ok "return 1".toUTF8) newServer).result =
      .ok (Assessment.render { assessment with
        subject := assessment.language.tag ++ " Analysis" } .json) := by
  have h : Submittable (fun _ => .ok "return 1".toUTF8) program "ada" "return 1" .python :=
    submittable_program (by decide)
  obtain ⟨sent, assessment, hsent, hagrees⟩ := client_agrees_with_server.2.2.2 _ _ _ _ _ _ none
    .python _ _ _ ⟨.json, none⟩ h serverAddress_local serves_local
  obtain rfl : filePosting program "ada" none "return 1" .python = sent :=
    congrArg Prod.snd (Except.ok.inj ((h.posting serverAddress_local none).symm.trans hsent))
  exact ⟨assessment, hagrees.analyzed, hagrees.stored (by decide +kernel) ⟨by decide, rfl⟩⟩

/-- A file with the character zero in it is assessed without a server and refused by one. -/
theorem refused_of_nul :
    Submittable (fun _ => .ok "\x00".toUTF8) program "ada" "\x00" .python ∧
    Serves newServer "http://localhost" (.trial none) .empty ∧
    (∃ assessment : Assessment, ((Command.analyze program ⟨.json, none⟩).result
      (fun _ => .ok "\x00".toUTF8) newServer).result = .ok (assessment.render .json)) ∧
    ((Command.submit program "ada" none "http://localhost/" ⟨.json, none⟩).result
      (fun _ => .ok "\x00".toUTF8) newServer).result =
      .error (.refused 500 "Failed to save analysis") := by
  have hfilled : Text.isBlank "\x00" = false := by decide
  have h := submittable_program hfilled
  have hanalyze := result_analyze h newServer ⟨.json, none⟩
  have hsubmit := (result_submit h serverAddress_local serves_local none ⟨.json, none⟩
    (by decide +kernel)).2
  have hnot : ¬ Keeps (.trial none) program "ada" "\x00" none := fun hk =>
    absurd hk.texts (by decide)
  exact ⟨h, serves_local, ⟨_, congrArg Attempt.result hanalyze⟩, hsubmit hnot⟩

end Example

end CommandLine

end Appraisal
