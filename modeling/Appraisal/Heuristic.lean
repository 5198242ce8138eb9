import Appraisal.Prose
import Appraisal.Request

/-!
# The rules' own report

`Report.heuristic` assesses a text from its evidence alone. It needs no service and never fails.
-/

namespace Appraisal

/-- What the rules find in a text. -/
def Findings.ofText (code : List Char) (language : Language) (company : String) : Findings :=
  let evidence := Evidence.ofText code
  { evidence := evidence
    cost := evidence.cost
    score := (evidence.grading evidence.cost language company).overallScore
    language := language }

/-- The report on a text with these findings. -/
def Findings.report (f : Findings) (company : String) : Report :=
  let card := f.evidence.grading f.cost f.language company
  { overallScore := card.overallScore
    timeComplexity := f.cost.time.label
    spaceComplexity := f.cost.space.label
    languagePerformance := card.languagePerformance
    dataStructures := card.dataStructures
    redundantLogic := card.redundantLogic
    modularity := card.modularity
    benchmark := card.benchmark
    suggestions := f.prose.suggestions
    strengths := f.prose.strengths
    weaknesses := f.prose.weaknesses
    explanation := f.prose.explanation
    feedback := f.prose.feedback }

/-- The report of the rules on a source text. -/
def Report.heuristic (code : String) (language : Language) (company : String) : Report :=
  (Findings.ofText code.toList language company).report company

def Request.heuristicReport (request : Request) : Report :=
  Report.heuristic request.code request.language request.targetCompany

end Appraisal
