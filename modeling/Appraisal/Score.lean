import Appraisal.Binary64.Decimal
import Appraisal.Growth
import Appraisal.Language
import Appraisal.Rating

/-!
# Scores

A submission starts at `startingScore`; points are added and taken away for what its text shows.
The sum is then scaled by the factor of the target company, rounded with a half going away from
zero, and held between `minScore` and `maxScore`.
-/

namespace Appraisal

def startingScore : Int := 50

def minScore : Nat := 15

def maxScore : Nat := 98

/-- The companies with a factor of their own, in percent. -/
def companyPercents : List (String × Nat) :=
  [("google", 110), ("amazon", 105), ("microsoft", 108), ("meta", 112), ("apple", 103),
    ("netflix", 102), ("infosys", 100), ("tcs", 98)]

/-- The factor of a company in percent, its name taken in any case. -/
def companyPercent (company : String) : Nat :=
  ((companyPercents.find? fun entry => entry.1 == Text.lowered company).map (·.2)).getD 100

/-- The factor of a company as a binary64 number. -/
def companyFactor (company : String) : Binary64 :=
  .ofDecimal false (companyPercent company) (-2)

/-- Points that a condition is worth. -/
def points (condition : Bool) (worth : Int) : Int := if condition then worth else 0

namespace Evidence

def algorithmPoints (e : Evidence) (c : Cost) : Int :=
  points e.fastSearch 20 + points (c.time == .linear && !e.nested) 15 +
    points (c.time == .logarithmic) 25 + points e.earlyReturn 5 + points e.loopExit 3

/-- Points for the care taken with the code. -/
def craftPoints (e : Evidence) : Int :=
  points e.functions 10 + points e.documented 8 + points e.errorHandling 7 +
    points e.validation 6 + points e.constants 4

/-- Points for a moderate size. -/
def sizePoints (e : Evidence) : Int :=
  points (5 < e.lines && e.lines < 50) 5 + points (50 < e.length && e.length < 500) 3

/-- Points that are taken away. -/
def deductions (e : Evidence) (c : Cost) : Int :=
  points (e.nested && !e.fastSearch) 15 + points (c.time == .exponential) 20 +
    points (!e.functions && 20 < e.lines) 10 + points (!e.comments && 15 < e.lines) 8 +
    points (100 < e.lines) 5

/-- The score before the company is looked at. -/
def unscaledScore (e : Evidence) (c : Cost) : Int :=
  startingScore + e.algorithmPoints c + e.craftPoints + e.sizePoints - e.deductions c

def structures (e : Evidence) : DataStructures :=
  if e.fastSearch then .optimal
  else if e.lookup || e.sequence then .good
  else .suboptimal

/-- The count of redundant pieces of logic. -/
def redundancies (e : Evidence) : UInt32 :=
  (if e.nested then 2 else 0) + (if !e.fastSearch && 1 < e.forLoops then 1 else 0)

def modularity (e : Evidence) : Modularity :=
  if e.functions && e.comments then .excellent
  else if e.functions then .good
  else if 30 < e.lines then .poor
  else .fair

end Evidence

/-- A score scaled by a factor, rounded and held in range. -/
def scaledScore (score : Int) (factor : Binary64) : UInt8 :=
  .ofNat (((Binary64.ofInt score).mul factor).round.clampNat minScore maxScore)

def Language.performance (language : Language) : LanguagePerformance :=
  if language.interpreted then .medium else .high

structure Grading where
  overallScore : UInt8
  languagePerformance : LanguagePerformance
  dataStructures : DataStructures
  redundantLogic : UInt32
  modularity : Modularity
  benchmark : Benchmark
deriving DecidableEq, Repr

/-- The grading of a submission by its evidence and its cost. -/
def Evidence.grading (e : Evidence) (c : Cost) (language : Language) (company : String) :
    Grading :=
  let score := scaledScore (e.unscaledScore c) (companyFactor company)
  { overallScore := score
    languagePerformance := language.performance
    dataStructures := e.structures
    redundantLogic := e.redundancies
    modularity := e.modularity
    benchmark := .ofScore score }

end Appraisal
