import Appraisal.Proofs.Scaling

/-!
# Better evidence never scores lower

A mark counts twice: for its own points, and through the growth that the marks speak for. Taken
together the two never work against each other (`growthWorth_mono`), and of the marks that do not
decide the growth each has points of its own and none takes any away. So evidence with every merit
of other evidence and none but its faults scores no lower (`score_le_of_improves`), and the scaling
for a company keeps the order.
-/

namespace Appraisal

namespace Evidence

/-- Whether evidence of the same size has every merit of other evidence and only faults that the
other has too. -/
structure Improves (better e : Evidence) : Prop where
  lines : better.lines = e.lines
  length : better.length = e.length
  forLoops : better.forLoops = e.forLoops
  whileLoop : better.whileLoop = e.whileLoop
  fastSearch : e.fastSearch = true → better.fastSearch = true
  functions : e.functions = true → better.functions = true
  comments : e.comments = true → better.comments = true
  docstrings : e.docstrings = true → better.docstrings = true
  errorHandling : e.errorHandling = true → better.errorHandling = true
  validation : e.validation = true → better.validation = true
  constants : e.constants = true → better.constants = true
  earlyReturn : e.earlyReturn = true → better.earlyReturn = true
  loopExit : e.loopExit = true → better.loopExit = true
  recursion : better.recursion = true → e.recursion = true
  nested : better.nested = true → e.nested = true

section Points

variable {e better : Evidence}

theorem Improves.growthPoints_le (h : better.Improves e) :
    e.growthPoints ≤ better.growthPoints := by
  have hloops : better.loops = e.loops := by rw [loops, loops, h.forLoops, h.whileLoop]
  rw [growthPoints_eq, growthPoints_eq, hloops]
  exact growthWorth_mono e.loops h.fastSearch h.recursion h.nested

theorem Improves.exitPoints_le (h : better.Improves e) : e.exitPoints ≤ better.exitPoints := by
  unfold exitPoints
  gcongr ?_ + ?_
  · exact points_mono (by decide) h.earlyReturn
  · exact points_mono (by decide) h.loopExit

theorem Improves.craftPoints_le (h : better.Improves e) : e.craftPoints ≤ better.craftPoints := by
  have hdocumented : e.documented = true → better.documented = true := by
    simp only [documented, Bool.or_eq_true]
    exact Or.imp h.comments h.docstrings
  unfold craftPoints
  gcongr ?_ + ?_ + ?_ + ?_ + ?_
  · exact points_mono (by decide) h.functions
  · exact points_mono (by decide) hdocumented
  · exact points_mono (by decide) h.errorHandling
  · exact points_mono (by decide) h.validation
  · exact points_mono (by decide) h.constants

theorem Improves.sizePoints_eq (h : better.Improves e) : better.sizePoints = e.sizePoints := by
  rw [sizePoints, sizePoints, h.lines, h.length]

theorem Improves.neglect_le (h : better.Improves e) : better.neglect ≤ e.neglect := by
  have hlacks {merit merit' : Bool} (long : Bool) (hmerit : merit = true → merit' = true) :
      (!merit' && long) = true → (!merit && long) = true := by
    revert merit merit' long
    decide
  unfold neglect
  rw [h.lines]
  gcongr ?_ + ?_ + _
  · exact points_mono (by decide) (hlacks _ h.functions)
  · exact points_mono (by decide) (hlacks _ h.comments)

end Points

section Scores

variable {e better : Evidence}

theorem Improves.unscaledScore_le (h : better.Improves e) :
    e.unscaledScore e.cost ≤ better.unscaledScore better.cost := by
  have hgrowth := h.growthPoints_le
  have hexit := h.exitPoints_le
  have hcraft := h.craftPoints_le
  have hneglect := h.neglect_le
  rw [unscaledScore_eq, unscaledScore_eq, h.sizePoints_eq]
  omega

/-- Improved evidence scores no lower, before and after the scaling for any company. -/
theorem score_le_of_improves (h : better.Improves e) :
    e.unscaledScore e.cost ≤ better.unscaledScore better.cost ∧
      ∀ (language : Language) (company : String),
        (e.grading e.cost language company).overallScore ≤
          (better.grading better.cost language company).overallScore := by
  refine ⟨h.unscaledScore_le, fun language company => ?_⟩
  exact scaledScore_le_of_exact e.unscaledScore_bounds better.unscaledScore_bounds
    (exactScore_mono (percentOf (Text.lowered company)) h.unscaledScore_le)

def recursiveLoops : Evidence := { forLoops := 2, nested := true, recursion := true }

def recursiveLookup : Evidence := { recursiveLoops with lookup := true, fastSearch := true }

theorem improves_recursiveLoops : recursiveLookup.Improves recursiveLoops := by
  constructor <;> decide

/-- A lookup takes a recursive text out of exponential growth, though its loops stay nested. -/
theorem score_le_of_improves_lookup :
    recursiveLookup.Improves recursiveLoops ∧
      recursiveLoops.unscaledScore recursiveLoops.cost = 15 ∧
      recursiveLookup.unscaledScore recursiveLookup.cost = 70 ∧
      (recursiveLoops.grading recursiveLoops.cost .python "meta").overallScore ≤
        (recursiveLookup.grading recursiveLookup.cost .python "meta").overallScore :=
  ⟨improves_recursiveLoops, by decide, by decide,
    (score_le_of_improves improves_recursiveLoops).2 .python "meta"⟩

end Scores

end Evidence

end Appraisal
