import Appraisal.Text.Lowercase

/-!
# Ratings

The four scales on which a submission is rated, and the labels of their grades. A label is read
exactly by `Rating.ofLabel?`, and in any case with blanks around it by `Rating.parse?`. By
`ofLabel?_label` the label of a grade names that grade.
-/

namespace Appraisal

/-- A scale of finitely many grades, each with a label of its own. -/
class Rating (α : Type) where
  grades : List α
  label : α → String
  mem_grades : ∀ grade, grade ∈ grades := by intro grade; cases grade <;> simp
  label_injective : ∀ {g h}, label g = label h → g = h := by
    intro g h; cases g <;> cases h <;> simp

namespace Rating

variable {α : Type} [Rating α]

/-- The grade that has exactly this label. -/
def ofLabel? (text : String) : Option α := grades.find? fun grade => label grade == text

@[simp] theorem ofLabel?_label (grade : α) : ofLabel? (label grade) = some grade := by
  unfold ofLabel?
  cases h : (grades : List α).find? fun other => label other == label grade with
  | none => exact absurd (List.find?_eq_none.1 h grade (mem_grades grade)) (by simp)
  | some other =>
    have := List.find?_some h
    rw [label_injective (eq_of_beq this)]

/-- The grade of a label in any case and with blanks around it. -/
def parse? (text : String) : Option α :=
  grades.find? fun grade => Text.lowered (label grade) == Text.normalName text

end Rating

/-- How fast programs of the language run. -/
inductive LanguagePerformance where
  | high
  | medium
  | low
deriving DecidableEq, Repr

/-- How well the data structures suit the task. -/
inductive DataStructures where
  | optimal
  | good
  | suboptimal
deriving DecidableEq, Repr

/-- How well the submission is divided into parts. -/
inductive Modularity where
  | excellent
  | good
  | fair
  | poor
deriving DecidableEq, Repr

/-- How the submission compares with the bar of the target company. -/
inductive Benchmark where
  | exceedsExpectations
  | meetsRequirements
  | belowExpectations
deriving DecidableEq, Repr

instance : Rating LanguagePerformance where
  grades := [.high, .medium, .low]
  label
    | .high => "High"
    | .medium => "Medium"
    | .low => "Low"

instance : Rating DataStructures where
  grades := [.optimal, .good, .suboptimal]
  label
    | .optimal => "Optimal"
    | .good => "Good"
    | .suboptimal => "Suboptimal"

instance : Rating Modularity where
  grades := [.excellent, .good, .fair, .poor]
  label
    | .excellent => "Excellent"
    | .good => "Good"
    | .fair => "Fair"
    | .poor => "Poor"

instance : Rating Benchmark where
  grades := [.exceedsExpectations, .meetsRequirements, .belowExpectations]
  label
    | .exceedsExpectations => "Exceeds Expectations"
    | .meetsRequirements => "Meets Requirements"
    | .belowExpectations => "Below Expectations"

/-- The band of a score: above 85, above 70, or lower. -/
def Benchmark.ofScore (score : UInt8) : Benchmark :=
  if 85 < score then .exceedsExpectations
  else if 70 < score then .meetsRequirements
  else .belowExpectations

end Appraisal
