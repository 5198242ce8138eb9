import Appraisal.Consultation
import Mathlib.Data.List.TakeWhile
import Mathlib.Tactic.SplitIfs

/-!
# What a consultation gives

A reply of a model counts exactly when its text is the JSON of an object, and the report is then
the one that the object makes; in every other case the rules give the report
(`modelReport_eq_ok_iff`, `consult_outcome`). Either report is fit to be shown: its score is in
range, its lists are short and no text in it is blank (`Report.Presentable`).
-/

namespace Appraisal

namespace Text

theorem isBlank_append (a b : String) : isBlank (a ++ b) = (isBlank a && isBlank b) := by
  simp [isBlank]

theorem isBlank_of_append_left {a : String} (h : isBlank a = false) (b : String) :
    isBlank (a ++ b) = false := by
  rw [isBlank_append, h, Bool.false_and]

/-- A text is blank exactly when trimming leaves nothing of it. -/
theorem isBlank_iff_trim_eq_nil (text : String) : isBlank text = true ↔ trim text.toList = [] := by
  rw [isBlank, List.all_eq_true]
  constructor
  · intro h
    have hs : trimStart text.toList = [] := List.dropWhile_eq_nil_iff.2 h
    rw [trim, hs]
    rfl
  · intro h
    cases hs : trimStart text.toList with
    | nil => exact List.dropWhile_eq_nil_iff.1 hs
    | cons c rest =>
      have hc : isSpace c = false := by
        have := List.head?_dropWhile_not isSpace text.toList
        unfold trimStart at hs
        rw [hs] at this
        simpa using this
      rw [trim, hs, trimEnd_cons rest hc] at h
      cases h

end Text

section Paragraphs

theorem isBlank_paragraph : ∀ parts : List String,
    Text.isBlank (paragraph parts) = parts.all Text.isBlank
  | [] => rfl
  | [part] => by simp [paragraph]
  | part :: other :: parts => by
    have ih := isBlank_paragraph (other :: parts)
    have hspace : Text.isBlank " " = true := by decide
    unfold paragraph at ih ⊢
    rw [String.intercalate_cons_cons, Text.isBlank_append, Text.isBlank_append, ih, hspace]
    simp

theorem isBlank_paragraph_cons {part : String} (h : Text.isBlank part = false)
    (parts : List String) : Text.isBlank (paragraph (part :: parts)) = false := by
  rw [isBlank_paragraph, List.all_cons, h, Bool.false_and]

theorem isBlank_choose {condition : Bool} {yes no : String} (hy : Text.isBlank yes = false)
    (hn : Text.isBlank no = false) : Text.isBlank (choose condition yes no) = false := by
  unfold choose
  split
  · exact hy
  · exact hn

end Paragraphs

theorem Binary64.clampNat_le {low high : Nat} (h : low ≤ high) :
    ∀ x : Binary64, x.clampNat low high ≤ high
  | .nan _ _ => Nat.zero_le _
  | .infinite s => by
    show (if s then low else high) ≤ high
    split_ifs <;> omega
  | .finite s k => by
    show (if s then low else min high (max low (k / one))) ≤ high
    split_ifs <;> omega

/-- Whether no remark is blank. -/
structure Feedback.Presentable (feedback : Feedback) : Prop where
  efficiency : Text.isBlank feedback.algorithmEfficiency = false
  readability : Text.isBlank feedback.codeReadability = false
  practices : Text.isBlank feedback.bestPractices = false
  optimization : Text.isBlank feedback.performanceOptimization = false

/-- Whether a report is fit to be shown. -/
structure Report.Presentable (report : Report) : Prop where
  score : report.overallScore.toNat ≤ 100
  suggestions : report.suggestions.length ≤ 6
  strengths : report.strengths.length ≤ 5
  weaknesses : report.weaknesses.length ≤ 5
  time : Text.isBlank report.timeComplexity = false
  space : Text.isBlank report.spaceComplexity = false
  explanation : Text.isBlank report.explanation = false
  feedback : report.feedback.Presentable

section Rules

theorem Growth.isBlank_label (growth : Growth) : Text.isBlank growth.label = false := by
  cases growth <;> decide

namespace Findings

theorem isBlank_explanation (f : Findings) : Text.isBlank f.explanation = false := by
  refine isBlank_paragraph_cons ?_ _
  rw [String.append_assoc, String.append_assoc, String.append_assoc]
  exact Text.isBlank_of_append_left (by decide) _

theorem presentable_feedback (f : Findings) : f.feedback.Presentable where
  efficiency := by
    refine isBlank_paragraph_cons ?_ _
    rw [String.append_assoc, String.append_assoc, String.append_assoc]
    exact Text.isBlank_of_append_left (by decide) _
  readability := isBlank_paragraph_cons (isBlank_choose (by decide) (by decide)) _
  practices := isBlank_paragraph_cons (isBlank_choose (by decide) (by decide)) _
  optimization := isBlank_paragraph_cons (isBlank_choose (by decide) (by decide)) _

end Findings

theorem scaledScore_le (score : Int) (factor : Binary64) :
    (scaledScore score factor).toNat ≤ 98 := by
  have h : (((Binary64.ofInt score).mul factor).round.clampNat minScore maxScore) ≤ maxScore :=
    Binary64.clampNat_le (by decide) _
  unfold scaledScore
  rw [UInt8.toNat_ofNat']
  unfold maxScore at h ⊢
  omega

/-- The rules' own report is fit to be shown. -/
theorem Request.presentable_heuristicReport (request : Request) :
    request.heuristicReport.Presentable where
  score := Nat.le_trans (scaledScore_le _ _) (by decide)
  suggestions := List.length_take_le _ _
  strengths := List.length_take_le _ _
  weaknesses := List.length_take_le _ _
  time := Growth.isBlank_label _
  space := Growth.isBlank_label _
  explanation := Findings.isBlank_explanation _
  feedback := Findings.presentable_feedback _

end Rules

namespace Reply

theorem isBlank_filled_getD (fields : Fields) (key : String) {default : String}
    (h : Text.isBlank default = false) :
    Text.isBlank ((filled? fields key).getD default) = false := by
  cases hf : filled? fields key with
  | none => exact h
  | some text =>
    have := (Option.filter_eq_some_iff.1 hf).2
    simpa using this

theorem length_strings_le (fields : Fields) (key : String) (most : Nat) :
    (strings fields key most).length ≤ most := by
  unfold strings
  split
  · exact List.length_take_le _ _
  · exact Nat.zero_le _

theorem count_le (fields : Fields) (key : String) (bound : Nat) :
    count fields key bound ≤ bound := by
  unfold count
  split
  · exact Binary64.clampNat_le (Nat.zero_le bound) _
  · exact Nat.zero_le _

theorem presentable_feedback (fields : Fields) : (feedback fields).Presentable where
  efficiency := isBlank_filled_getD _ _ (by decide)
  readability := isBlank_filled_getD _ _ (by decide)
  practices := isBlank_filled_getD _ _ (by decide)
  optimization := isBlank_filled_getD _ _ (by decide)

/-- Whatever an object holds, the report that it makes is fit to be shown. -/
theorem presentable_ofFields (fields : Fields) : (ofFields fields).Presentable where
  score := by
    have h := count_le fields "overallScore" 100
    show (UInt8.ofNat (count fields "overallScore" 100)).toNat ≤ 100
    rw [UInt8.toNat_ofNat']
    omega
  suggestions := length_strings_le _ _ _
  strengths := length_strings_le _ _ _
  weaknesses := length_strings_le _ _ _
  time := isBlank_filled_getD _ _ (by decide)
  space := isBlank_filled_getD _ _ (by decide)
  explanation := isBlank_filled_getD _ _ (by decide)
  feedback := presentable_feedback _

/-- A blank reply is no JSON, so it needs no rule of its own. -/
theorem document?_of_isBlank {reply : String} (h : Text.isBlank reply = true) :
    document? reply = none := by
  have ht := (Text.isBlank_iff_trim_eq_nil reply).1 h
  have hbody : body reply.toList = [] := by
    unfold body
    rw [ht]
    rfl
  unfold document?
  rw [hbody]
  rfl

theorem document?_eq_some_iff {reply : String} {document : Json} :
    document? reply = some document ↔
      Json.parse? (body reply.toList) = some document ∧ document.sound Json.maxDepth = true := by
  rw [document?, Option.filter_eq_some_iff]

theorem report_eq_ok_iff {reply : String} {report : Report} :
    Reply.report reply = .ok report ↔
      ∃ fields, document? reply = some (.object fields) ∧ report = ofFields fields := by
  unfold Reply.report
  constructor
  · intro h
    split at h
    · cases h
    · next fields hd =>
      cases h
      exact ⟨fields, hd, rfl⟩
    · cases h
  · rintro ⟨fields, hd, rfl⟩
    rw [hd]

end Reply

namespace Request

/-- A model's answer gives a report exactly when it is the JSON of an object. -/
theorem modelReport_eq_ok_iff {answer : Except Failure String} {report : Report} :
    modelReport answer = .ok report ↔ ∃ reply fields, answer = .ok reply ∧
      Reply.document? reply = some (.object fields) ∧ report = Reply.ofFields fields := by
  unfold modelReport
  constructor
  · intro h
    split at h
    · cases h
    · next reply =>
      split_ifs at h
      split at h
      · next hr =>
        cases h
        obtain ⟨fields, hd, he⟩ := Reply.report_eq_ok_iff.1 hr
        exact ⟨reply, fields, rfl, hd, he⟩
      · cases h
  · rintro ⟨reply, fields, rfl, hd, rfl⟩
    have hb : ¬ Text.isBlank reply = true := by
      intro hb
      rw [Reply.document?_of_isBlank hb] at hd
      cases hd
    have hr := Reply.report_eq_ok_iff.2 ⟨fields, hd, rfl⟩
    simp only [hb, hr]
    rfl

/-- Whether the model is there and answers the request with the JSON of an object, perhaps in a
fence: the object has these fields. -/
def Answered (request : Request) (model : Option Model) (fields : Reply.Fields) : Prop :=
  ∃ answer reply, model = some answer ∧ answer request.messages = .ok reply ∧
    Json.parse? (Reply.body reply.toList) = some (.object fields) ∧
    Json.sound Json.maxDepth (.object fields) = true

theorem consult_of_answered {request : Request} {model : Option Model} {fields : Reply.Fields}
    (h : request.Answered model fields) :
    request.consult model = ⟨Reply.ofFields fields, .ai, [request.messages]⟩ := by
  obtain ⟨answer, reply, rfl, ha, hp, hs⟩ := h
  have hr : modelReport (answer request.messages) = .ok (Reply.ofFields fields) :=
    modelReport_eq_ok_iff.2 ⟨reply, fields, ha, Reply.document?_eq_some_iff.2 ⟨hp, hs⟩, rfl⟩
  unfold consult
  simp only [hr]

theorem consult_of_not_answered {request : Request} {model : Option Model}
    (h : ∀ fields, ¬ request.Answered model fields) :
    request.consult model =
      ⟨request.heuristicReport, .heuristic, model.toList.map fun _ => request.messages⟩ := by
  unfold consult
  split
  · rfl
  · next answer =>
    split
    · next report hr =>
      obtain ⟨reply, fields, ha, hd, -⟩ := modelReport_eq_ok_iff.1 hr
      obtain ⟨hp, hs⟩ := Reply.document?_eq_some_iff.1 hd
      exact absurd ⟨answer, reply, rfl, ha, hp, hs⟩ (h fields)
    · rfl

/-- There is always a report fit to be shown. It is the model's exactly when the model answered
with an object, and the rules' otherwise. A model that is there is asked once, and what it would
answer to another conversation does not matter. -/
theorem consult_outcome (model : Option Model) (request : Request) :
    ((∃ fields, request.Answered model fields ∧ (request.consult model).source = .ai ∧
        (request.consult model).report = Reply.ofFields fields) ∨
      ((∀ fields, ¬ request.Answered model fields) ∧
        (request.consult model).source = .heuristic ∧
        (request.consult model).report = request.heuristicReport)) ∧
    (request.consult model).report.Presentable ∧
    (request.consult model).asked = model.toList.map (fun _ => request.messages) ∧
    ∀ answer answer' : Model, answer request.messages = answer' request.messages →
      request.consult (some answer) = request.consult (some answer') := by
  have hcongr : ∀ answer answer' : Model, answer request.messages = answer' request.messages →
      request.consult (some answer) = request.consult (some answer') := by
    intro answer answer' h
    simp only [consult, h]
  by_cases h : ∃ fields, request.Answered model fields
  · obtain ⟨fields, hf⟩ := h
    have hc := consult_of_answered hf
    obtain ⟨answer, -, rfl, -⟩ := id hf
    rw [hc]
    exact ⟨.inl ⟨fields, hf, rfl, rfl⟩, Reply.presentable_ofFields fields, rfl, hcongr⟩
  · rw [not_exists] at h
    rw [consult_of_not_answered h]
    exact ⟨.inr ⟨h, rfl, rfl⟩, request.presentable_heuristicReport, rfl, hcongr⟩

end Request

end Appraisal
