import Appraisal.Conversation
import Appraisal.Proofs.Landmark

/-!
# What the messages tell of a request

The code, the language and the company stand in the messages as they are, and any of them may hold
copies of the text around it. The messages tell them apart all the same (`messages_inj`): in the
first one the company has nothing but fixed text on either side, so that it is known when the second
one is read, and there the words between the two places of the language are a landmark.
-/

namespace Appraisal.Request

theorem roleText_inj {first second : Request} (h : first.roleText = second.roleText) :
    first.targetCompany = second.targetCompany := by
  unfold roleText at h
  rw [String.append_left_inj, String.append_left_inj, String.append_left_inj,
    String.append_right_inj] at h
  exact h

/-- What stands in the second message before the language. -/
def opening (company : String) : String :=
  "You are an expert code reviewer for " ++ company ++ ". Analyze this "

/-- What stands in the second message between the two places of the language. -/
def bridge : String := String.intercalate "\n"
  [" code thoroughly and provide a comprehensive, specific assessment.", "", "Code to analyze:",
    "```"]

/-- The lines of the second message after the code, which the code and the language leave alone. -/
def closingLines (company : String) : List String := (questionLines ⟨"", .c, company⟩).drop 5

theorem landmark_bridge : Text.Landmark Text.IsLower bridge.toList where
  foreign := ⟨'C', by decide +kernel, by decide +kernel⟩
  unbordered := by decide +kernel

theorem question_eq (code : String) (language : Language) (company : String) :
    String.intercalate "\n" (questionLines ⟨code, language, company⟩) =
      opening company ++ (language.tag ++ (bridge ++ (language.tag ++ ("\n" ++
        (code ++ ("\n" ++ String.intercalate "\n" (closingLines company))))))) := by
  have hlines : questionLines ⟨code, language, company⟩ =
      [opening company ++ language.tag ++
        " code thoroughly and provide a comprehensive, specific assessment.", "",
        "Code to analyze:", "```" ++ language.tag, code] ++ closingLines company := rfl
  have hclosing : closingLines company ≠ [] := by simp [closingLines, questionLines]
  rw [hlines, String.intercalate_append_of_ne_nil (by simp) hclosing]
  unfold bridge
  simp only [String.intercalate_cons_cons, String.intercalate_singleton]
  simp only [String.append_assoc]

/-- Messages are the same only for the same request, whatever stands in the code, in the name of the
language and in that of the company. -/
theorem messages_inj {code code' name name' company company' : String} :
    messages ⟨code, .parse name, company⟩ = messages ⟨code', .parse name', company'⟩ ↔
      (⟨code, .parse name, company⟩ : Request) = ⟨code', .parse name', company'⟩ := by
  refine ⟨fun h => ?_, congrArg messages⟩
  rw [messages, messages, List.cons.injEq, List.cons.injEq] at h
  obtain rfl : company = company' := roleText_inj (congrArg Message.content h.1)
  have hquestion := congrArg Message.content h.2.1
  rw [Message.user, Message.user, question_eq, question_eq, String.append_right_inj] at hquestion
  obtain ⟨hlanguage, hrest⟩ := landmark_bridge.tag_inj hquestion
  rw [hlanguage, String.append_right_inj, String.append_right_inj, String.append_left_inj] at hrest
  rw [hlanguage, hrest]

end Appraisal.Request
