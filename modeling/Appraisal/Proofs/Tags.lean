import Appraisal.Proofs.Failure
import Appraisal.Proofs.FileNames
import Appraisal.Proofs.Remote

/-!
# Tags are canonical

A name declares the language of its normal form, and the tag of a language is its own normal form:
a name and its tag declare the same language, and the tag of an unknown one is no tag of a known
one. So a language may be written as its tag and read again as often as a submission asks for it,
from the options of a command to the row that is stored and back (`canonical_tags`).
-/

namespace Appraisal

namespace Language

variable {name other unknown : String}

theorem parse_eq_iff : parse name = parse other ↔ Text.normalName name = Text.normalName other := by
  refine ⟨fun h => ?_, congrArg ofTag⟩
  rw [← tag_ofTag (Text.normalName name), ← parse, h, parse, tag_ofTag]

theorem mem_known_iff {language : Language} : language ∈ known ↔ language.isOther = false := by
  cases language <;> simp [known, isOther]

/-- The name of an unknown language is not the tag of a known one. -/
theorem tag_ne_of_other (h : parse name = .other unknown) {language : Language}
    (hl : language.isOther = false) : language.tag ≠ unknown := by
  rintro rfl
  have hname : Text.normalName name = language.tag := by
    rw [← tag_ofTag (Text.normalName name), ← parse, h]
    rfl
  rw [parse, hname, ofTag_tag_of_known language (mem_known_iff.2 hl)] at h
  rw [h] at hl
  cases hl

end Language

namespace Web.Exchange

open CommandLine (CommandError filePosting received received_saved received_problem
  received_rejected)

variable {exchange : Exchange} {archive : Archive} {submission : Submission} {language : Language}
  {network : Http.Network} {reply : Http.Reply}

/-- What a client takes of a reply to a submission. -/
def receipt (network : Http.Network) (reply : Http.Reply) : Except CommandError Receipt :=
  received network Receipt.ofJson? (.answered reply)

theorem refused_of_not_taken (hs : exchange.submission? = some submission)
    (ht : ¬ exchange.Takes archive submission) :
    (exchange.handled archive).response = Problem.saveFailed.response ∧
      exchange.after archive = archive := by
  cases hr : exchange.reachable with
  | false =>
    have hf : exchange.Fails archive .saveFailed := .unsaved hs hr
    exact ⟨hf.response, hf.after_eq⟩
  | true => exact refused_of_not_takes hs hr ht

/-- Whether a language passes through a request for a submission unchanged: it arrives unless the
request is too long, and either it is stored and told as it arrived, or nothing is stored and the
client is told of a failure. A submission whose count overflows is stored without being told. -/
structure Delivers (exchange : Exchange) (archive : Archive) (submission : Submission)
    (language : Language) : Prop where
  means : submission.language = language
  arrives : isOverlong exchange.request = false → exchange.submission? = some submission
  overlong : isOverlong exchange.request = true → exchange.after archive = archive ∧
    ∀ network reply, Http.Network.Brings network (exchange.handled archive).response reply →
      ∃ message, receipt network reply = .error (.refused 413 message)
  stored : exchange.Takes archive submission → ∃ row ∈ (exchange.after archive).analyses,
    row.id = exchange.stamp.analysisId ∧ row.language = language.tag
  told : exchange.Takes archive submission → ¬ exchange.Overflows archive submission.userId →
    ∀ network reply, Http.Network.Brings network (exchange.handled archive).response reply →
      ∃ told, receipt network reply = .ok told ∧ told.assessment.language = language
  refused : isOverlong exchange.request = false → ¬ exchange.Takes archive submission →
    exchange.after archive = archive ∧
      ∀ network reply, Http.Network.Brings network (exchange.handled archive).response reply →
        receipt network reply = .error (.refused 500 "Failed to save analysis")

theorem Takes.told (h : exchange.Takes archive submission)
    (ho : ¬ exchange.Overflows archive submission.userId)
    (hp : submission.language.Portable)
    (hb : network.Brings (exchange.handled archive).response reply) :
    ∃ told, receipt network reply = .ok told ∧
      told.assessment.language = submission.language := by
  have hresponse := (h.stores ho).response
  rw [hresponse] at hb
  have htag : ((exchange.fresh submission).record exchange.stamp).language =
    submission.language.tag := rfl
  refine ⟨_, received_saved hb, ?_⟩
  simp only [Receipt.assessment, Record.summary, htag, hp.parse_tag]

end Web.Exchange

namespace CommandLine

open Web.Exchange (firstStamp)

theorem sourceLanguage_of_named {source : SourceOptions} {language : Language}
    (h : sourceLanguage source = .ok language) {name : String} (hn : name ∈ source.language)
    (hb : Text.isBlank name = false) : language = .parse name := by
  rw [sourceLanguage_eq_of_named hn hb, Language.parse_trimmed] at h
  exact (Except.ok.inj h).symm

/-- A name declares a language by its normal form alone, and the tag of the language declares it
again. Hence a file is submitted, stored and shown in the language that the command takes it for,
the one that the option names if it names one. -/
theorem canonical_tags :
    (∀ name, Language.parse (Language.parse name).tag = .parse name) ∧
    (∀ name other, Language.parse name = .parse other ↔
      Text.normalName name = Text.normalName other) ∧
    (∀ name unknown, Language.parse name = .other unknown →
      ∀ language : Language, language.isOther = false → language.tag ≠ unknown) ∧
    ∀ (files : Files) (source : SourceOptions) (userId code serverUrl address : String)
      (title : Option String) (language : Language),
      Submittable files source userId code language → serverAddress serverUrl = .ok address →
      (∀ name ∈ source.language, Text.isBlank name = false → language = .parse name) ∧
      ∃ sent, posting files source userId title serverUrl = .ok (address, sent) ∧
        sent.language = language.tag ∧
        ∃ submission, sent.arrival = some submission ∧
          ∀ (exchange : Web.Exchange) (archive : Archive),
            exchange.request = Web.posted sent.toJson.encode →
            exchange.Delivers archive submission language := by
  refine ⟨Language.parse_tag_parse, fun _ _ => Language.parse_eq_iff,
    fun _ _ h _ => Language.tag_ne_of_other h, ?_⟩
  intro files source userId code serverUrl address title language h ha
  refine ⟨fun _ => sourceLanguage_of_named h.language, _, h.posting ha title, rfl, _,
    h.arrival title, fun exchange archive hrequest => ?_⟩
  exact
    { means := rfl
      arrives := fun hb => submission?_posted h hrequest (hrequest ▸ hb)
      overlong := fun hb => by
        obtain ⟨hresponse, hafter⟩ := handled_of_overlong hrequest (hrequest ▸ hb) archive
        refine ⟨hafter, fun network reply hbrings => ?_⟩
        rw [hresponse] at hbrings
        exact received_rejected Receipt.ofJson? rfl hbrings
      stored := fun ht => ⟨_, ht.analyses_after ▸ List.mem_append_right _ List.mem_cons_self,
        rfl, rfl⟩
      told := fun ht ho network reply hbrings => ht.told ho h.portable hbrings
      refused := fun hb ht => by
        have hs := submission?_posted h hrequest (hrequest ▸ hb)
        obtain ⟨hresponse, hafter⟩ := Web.Exchange.refused_of_not_taken hs ht
        refine ⟨hafter, fun network reply hbrings => ?_⟩
        rw [hresponse] at hbrings
        exact received_problem Receipt.ofJson? hbrings }

/-- A file in a language that is known by a Greek name. -/
def greekProgram : SourceOptions := ⟨"main.txt", some " ΟΔΟΣ\n", "google"⟩

theorem submittable_greekProgram :
    Submittable (fun _ => .ok "return 1".toUTF8) greekProgram "ada" "return 1" (.other "οδος") where
  file := rfl
  language := by decide +kernel
  code_filled := by decide
  company_filled := by decide
  user_filled := by decide

/-- The last letter of the Greek name has its final form on the whole way. -/
theorem canonical_tags_greek : ∃ sent reply told,
    posting (fun _ => .ok "return 1".toUTF8) greekProgram "ada" none "http://localhost/" =
      .ok ("http://localhost", sent) ∧
    newServer.deliver (submitRequest "http://localhost" sent) = .answered reply ∧
    Web.Exchange.receipt newServer reply = .ok told ∧
    told.assessment.language = .other "οδος" := by
  have h := submittable_greekProgram
  obtain ⟨-, sent, hsent, -, submission, harrival, hdelivers⟩ :=
    canonical_tags.2.2.2 _ _ _ _ _ _ none _ h serverAddress_local
  obtain rfl : filePosting greekProgram "ada" none "return 1" (.other "οδος") = sent :=
    congrArg Prod.snd (Except.ok.inj ((h.posting serverAddress_local none).symm.trans hsent))
  obtain rfl := Option.some.inj ((h.arrival none).symm.trans harrival)
  obtain ⟨reply, hreply, hbrings⟩ := serves_local.answers
    (filePosting greekProgram "ada" none "return 1" (.other "οδος")).toJson.encode
  have hfits : Web.isOverlong (Web.posted (filePosting greekProgram "ada" none "return 1"
      (.other "οδος")).toJson.encode) = false := by decide +kernel
  have hkeeps : Keeps (.trial none) greekProgram "ada" "return 1" none := ⟨by decide, rfl⟩
  have htakes := (takes_unaided_iff h serves_local.ready hfits).2 hkeeps
  obtain ⟨told, htold, hlanguage⟩ := (hdelivers _ .empty (Web.Exchange.request_unaided _ _)).told
    htakes ((serves_local.ready.unaided _).room _) newServer reply hbrings
  exact ⟨_, reply, told, hsent, hreply, htold, hlanguage⟩

end CommandLine

end Appraisal
