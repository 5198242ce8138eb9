import Appraisal.Evidence

/-!
# Growth

How the time and the space of a submission grow with its input, judged by the evidence of its
text: the first case of `Evidence.cost` that applies decides both.
-/

namespace Appraisal

/-- A class of growth. No text is judged to be logarithmic, but the class is scored. -/
inductive Growth where
  | constant
  | logarithmic
  | linear
  | quadratic
  | exponential
deriving DecidableEq, Repr

def Growth.label : Growth → String
  | .constant => "O(1)"
  | .logarithmic => "O(log n)"
  | .linear => "O(n)"
  | .quadratic => "O(n²)"
  | .exponential => "O(2^n)"

/-- The growth of time and of space. -/
structure Cost where
  time : Growth
  space : Growth
deriving DecidableEq, Repr

/-- Linear under a condition, else constant. -/
def Growth.linearWhen (condition : Bool) : Growth := if condition then .linear else .constant

/-- The cost that the evidence of a text speaks for. -/
def Evidence.cost (e : Evidence) : Cost :=
  if e.recursion && !e.fastSearch then ⟨.exponential, .linear⟩
  else if e.nested then ⟨.quadratic, .linearWhen e.lookup⟩
  else if e.loops then ⟨.linear, .linearWhen (e.lookup || e.sequence)⟩
  else if e.fastSearch then ⟨.linear, .linear⟩
  else ⟨.constant, .constant⟩

end Appraisal
