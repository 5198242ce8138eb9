import Appraisal.Report
import Appraisal.Score

/-!
# Prose

What a report says in words. Each list comes from a table of remarks, read in order: a remark is
made when its condition holds, a list without any gets generic ones, and lists are cut to their
greatest length. Paragraphs are put together from fixed sentences.
-/

namespace Appraisal

/-- What a remark may depend on. -/
structure Findings where
  evidence : Evidence
  cost : Cost
  score : UInt8
  language : Language

/-- A remark and the condition under which it is made. -/
structure Remark where
  applies : Findings → Bool
  message : String

structure Prose where
  suggestions : List String
  strengths : List String
  weaknesses : List String
  explanation : String
  feedback : Feedback
deriving DecidableEq, Repr

namespace Findings

/-- Whether the time is linear and no loops are nested. -/
def linearTime (f : Findings) : Bool := f.cost.time == .linear && !f.evidence.nested

/-- Whether loops are nested without a fast search. -/
def quadraticScan (f : Findings) : Bool := f.evidence.nested && !f.evidence.fastSearch

/-- Whether a text of more than ten lines handles no errors. -/
def unguarded (f : Findings) : Bool := !f.evidence.errorHandling && 10 < f.evidence.lines

/-- Whether a text of more than fifteen lines has no comments. -/
def uncommented (f : Findings) : Bool := !f.evidence.comments && 15 < f.evidence.lines

/-- Whether a text of more than fifty lines has no functions. -/
def monolithic (f : Findings) : Bool := 50 < f.evidence.lines && !f.evidence.functions

end Findings

namespace Remark

def suggestions : List Remark := [
  ⟨fun f => !f.evidence.fastSearch && f.evidence.loops,
    "Consider using hash maps or sets for O(1) lookup operations instead of linear search"⟩,
  ⟨fun f => f.evidence.nested,
    "Optimize nested loops - consider using hash maps to reduce time complexity " ++
      "from O(n²) to O(n)"⟩,
  ⟨Findings.unguarded, "Add error handling with try-catch blocks for robustness"⟩,
  ⟨Findings.uncommented,
    "Add meaningful comments to explain complex logic and algorithm choices"⟩,
  ⟨fun f => !f.evidence.validation,
    "Add input validation to handle edge cases and invalid inputs"⟩,
  ⟨Findings.monolithic,
    "Break down the code into smaller, reusable functions for better modularity"⟩,
  ⟨fun f => !f.evidence.constants && f.evidence.digits,
    "Replace magic numbers with named constants for better maintainability"⟩]

def strengths : List Remark := [
  ⟨fun f => f.evidence.fastSearch,
    "Efficient use of hash maps/sets for optimal time complexity"⟩,
  ⟨fun f => f.evidence.functions, "Good code organization with proper function decomposition"⟩,
  ⟨fun f => f.evidence.documented, "Well-documented code with clear explanations"⟩,
  ⟨fun f => f.evidence.errorHandling, "Robust error handling implementation"⟩,
  ⟨fun f => f.evidence.earlyReturn,
    "Efficient early return patterns to avoid unnecessary computation"⟩,
  ⟨Findings.linearTime, "Linear time complexity achieved for the problem"⟩]

def weaknesses : List Remark := [
  ⟨Findings.quadraticScan, "Quadratic time complexity due to nested loops - can be optimized"⟩,
  ⟨Findings.unguarded, "Missing error handling for edge cases and invalid inputs"⟩,
  ⟨Findings.uncommented,
    "Lack of documentation makes code harder to understand and maintain"⟩,
  ⟨fun f => f.cost.time == .exponential,
    "Exponential time complexity - consider dynamic programming or memoization"⟩,
  ⟨Findings.monolithic, "Monolithic code structure - lacks modularity and reusability"⟩]

/-- The messages of the remarks that apply, in order. -/
def messages (remarks : List Remark) (f : Findings) : List String :=
  (remarks.filter fun remark => remark.applies f).map (·.message)

end Remark

/-- The suggestions for a text to which no remark applies. -/
def genericSuggestions : List String :=
  ["Consider adding more comprehensive test cases",
    "Review algorithm efficiency for potential optimizations"]

def genericStrengths : List String :=
  ["Code compiles and runs correctly", "Basic problem-solving approach is sound"]

def genericWeaknesses : List String :=
  ["Code could benefit from optimization", "Consider improving code documentation"]

/-- The score from which on a text needs no generic weaknesses. -/
def faultlessScore : UInt8 := 80

/-- The list, or another one in place of an empty list. -/
def orElse (list generic : List String) : List String := if list.isEmpty then generic else list

/-- Sentences with a space between any two, also beside an empty one. -/
def paragraph (parts : List String) : String := String.intercalate " " parts

/-- The first sentence when the condition holds, else the second. -/
def choose (condition : Bool) (yes no : String) : String := if condition then yes else no

namespace Findings

/-- The opening of an explanation: the complexities and the score. -/
def verdict (f : Findings) : List String :=
  ["Code analysis reveals " ++ f.cost.time.label ++ " time complexity and " ++
      f.cost.space.label ++ " space complexity.",
    "Score: " ++ toString f.score.toNat ++ "/100."]

def explanation (f : Findings) : String :=
  paragraph (f.verdict ++ [
    choose f.evidence.fastSearch "Excellent algorithmic approach with efficient data structures."
      "Algorithm could be optimized for better performance.",
    choose f.evidence.comments "Good documentation practices observed."
      "Documentation could be improved.",
    choose f.evidence.errorHandling "Proper error handling implemented."
      "Consider adding error handling for robustness."])

def algorithmNote (f : Findings) : String :=
  if f.evidence.fastSearch then "Optimal algorithm with efficient data structure usage."
  else if f.evidence.nested then "Nested loops detected - consider optimization with hash maps."
  else "Linear approach is reasonable but could potentially be optimized."

/-- The judgement of the space needed. -/
def memory (f : Findings) : String :=
  match f.cost.space with
  | .constant => "optimal"
  | .linear => "reasonable"
  | _ => "could be optimized"

def algorithmEfficiency (f : Findings) : String := paragraph [
  "Time complexity: " ++ f.cost.time.label ++ ", Space complexity: " ++
    f.cost.space.label ++ ".",
  f.algorithmNote]

def codeReadability (f : Findings) : String := paragraph [
  choose f.evidence.documented "Code is well-documented with clear comments."
    "Code lacks sufficient documentation.",
  choose f.evidence.functions "Good function organization and structure."
    "Consider breaking code into smaller functions.",
  choose (f.evidence.lines < 30) "Variable naming and structure is clean and manageable."
    "Variable naming and structure could be improved for better readability."]

def bestPractices (f : Findings) : String := paragraph [
  choose f.evidence.errorHandling "Good error handling practices implemented."
    "Missing error handling - add try-catch blocks.",
  choose f.evidence.validation "Input validation is present."
    "Add input validation for edge cases.",
  choose f.evidence.constants "Good use of constants."
    "Consider using named constants instead of magic numbers.",
  choose (f.language == .python && f.evidence.docstrings) "Proper Python docstring usage." ""]

def performanceOptimization (f : Findings) : String := paragraph [
  choose f.evidence.fastSearch "Efficient data structures used for optimal performance."
    "Consider using hash maps/sets for O(1) lookups.",
  choose f.evidence.earlyReturn "Good use of early returns to avoid unnecessary computation."
    "Consider early returns where applicable.",
  choose f.evidence.nested "Nested loops present - major optimization opportunity."
    "No obvious performance bottlenecks detected.",
  "Memory usage is " ++ f.memory ++ "."]

def feedback (f : Findings) : Feedback where
  algorithmEfficiency := f.algorithmEfficiency
  codeReadability := f.codeReadability
  bestPractices := f.bestPractices
  performanceOptimization := f.performanceOptimization

def suggestions (f : Findings) : List String :=
  (orElse (Remark.messages Remark.suggestions f) genericSuggestions).take suggestionLimit

def strengths (f : Findings) : List String :=
  (orElse (Remark.messages Remark.strengths f) genericStrengths).take strengthLimit

def weaknesses (f : Findings) : List String :=
  (orElse (Remark.messages Remark.weaknesses f)
    (if f.score < faultlessScore then genericWeaknesses else [])).take weaknessLimit

def prose (f : Findings) : Prose where
  suggestions := f.suggestions
  strengths := f.strengths
  weaknesses := f.weaknesses
  explanation := f.explanation
  feedback := f.feedback

end Findings

end Appraisal
