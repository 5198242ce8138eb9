import Appraisal.Text.Lowercase

/-!
# Programming languages

A submission declares its language by a tag. Seven tags are known; any other name is kept in its
normal form, so that no submission is refused for its language. By `tag_ofTag` nothing of a name in
that form is lost.
-/

namespace Appraisal

/-- The declared language of a submission. -/
inductive Language where
  | python
  | javascript
  | java
  | cpp
  | c
  | go
  | rust
  | other (name : String)
deriving DecidableEq, Repr

namespace Language

/-- The languages with a tag of their own. -/
def known : List Language := [.python, .javascript, .java, .cpp, .c, .go, .rust]

def tag : Language → String
  | .python => "python"
  | .javascript => "javascript"
  | .java => "java"
  | .cpp => "cpp"
  | .c => "c"
  | .go => "go"
  | .rust => "rust"
  | .other name => name

/-- The language of a tag in its normal form. -/
def ofTag (name : String) : Language :=
  (known.find? fun language => language.tag == name).getD (.other name)

@[simp] theorem tag_ofTag (name : String) : (ofTag name).tag = name := by
  unfold ofTag
  cases h : known.find? fun language => language.tag == name with
  | none => rfl
  | some language =>
    have := List.find?_some h
    exact eq_of_beq this

theorem ofTag_tag_of_known : ∀ language ∈ known, ofTag language.tag = language := by
  decide

/-- The language that a name declares, in any case and with blanks around it. -/
def parse (name : String) : Language := ofTag (Text.normalName name)

/-- Whether programs run on an interpreter rather than as machine code. -/
def interpreted : Language → Bool
  | .python | .javascript => true
  | _ => false

def isOther : Language → Bool
  | .other _ => true
  | _ => false

end Language

end Appraisal
