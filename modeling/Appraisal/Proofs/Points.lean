import Appraisal.Proofs.Marks
import Mathlib.Tactic.Ring

/-!
# What a score is made of

The marks that decide the growth of a text have points of their own too, so that a score does not
show at once what they are worth. Here their points are taken together (`growthWorth`), apart from
those for the care taken with the code, for its size, and from what is taken away for neglect
(`unscaledScore_eq`). The range of all scores can be read off that (`unscaledScore_bounds`).
-/

namespace Appraisal

section Conditions

variable {condition other : Bool} {worth : ℤ}

theorem points_bounds (condition : Bool) (h : 0 ≤ worth) :
    0 ≤ points condition worth ∧ points condition worth ≤ worth := by
  unfold points
  split_ifs <;> omega

theorem points_mono (hworth : 0 ≤ worth) (h : condition = true → other = true) :
    points condition worth ≤ points other worth := by
  unfold points
  split_ifs with hc ho ho
  · exact le_rfl
  · exact absurd (h hc) ho
  · exact hworth
  · exact le_rfl

end Conditions

namespace Evidence

/-- The points for a fast search and for the growth of time, less those that nested loops and
exponential time take away. -/
def growthPoints (e : Evidence) : ℤ :=
  points e.fastSearch 20 + points (e.cost.time == .linear && !e.nested) 15 -
    points (e.nested && !e.fastSearch) 15 - points (e.cost.time == .exponential) 20

/-- What the marks that decide the growth are worth. -/
def growthWorth (fastSearch recursion nested loops : Bool) : ℤ :=
  if fastSearch then (if nested then 20 else 35)
  else if recursion then (if nested then -35 else -20)
  else if nested then -15
  else if loops then 15 else 0

/-- The points for leaving functions and loops early. -/
def exitPoints (e : Evidence) : ℤ := points e.earlyReturn 5 + points e.loopExit 3

/-- The points that are taken away for what a long text lacks, and for its length. -/
def neglect (e : Evidence) : ℤ :=
  points (!e.functions && 20 < e.lines) 10 + points (!e.comments && 15 < e.lines) 8 +
    points (100 < e.lines) 5

variable (e : Evidence)

section Growth

theorem growthPoints_eq :
    e.growthPoints = growthWorth e.fastSearch e.recursion e.nested e.loops := by
  unfold growthPoints cost
  cases e.fastSearch <;> cases e.recursion <;> cases e.nested <;> cases e.loops <;> rfl

theorem growthWorth_bounds : ∀ fastSearch recursion nested loops : Bool,
    -35 ≤ growthWorth fastSearch recursion nested loops ∧
      growthWorth fastSearch recursion nested loops ≤ 35 := by
  decide

/-- A faster search, less recursion and less nesting are worth no less, all else being equal. -/
theorem growthWorth_mono : ∀ {fast fast' recursion recursion' nested nested' : Bool}
    (loops : Bool), (fast = true → fast' = true) → (recursion' = true → recursion = true) →
    (nested' = true → nested = true) →
      growthWorth fast recursion nested loops ≤ growthWorth fast' recursion' nested' loops := by
  decide

/-- The points for logarithmic time are never earned. -/
theorem points_logarithmic (worth : ℤ) : points (e.cost.time == .logarithmic) worth = 0 := by
  have hmem := time_cost (e := e)
  generalize e.cost.time = time at hmem
  cases time with
  | logarithmic => exact absurd hmem (by decide)
  | _ => rfl

end Growth

theorem unscaledScore_eq : e.unscaledScore e.cost =
    startingScore + e.growthPoints + e.exitPoints + e.craftPoints + e.sizePoints - e.neglect := by
  rw [unscaledScore, algorithmPoints, points_logarithmic, deductions, growthPoints, exitPoints,
    neglect]
  ring

section Bounds

theorem exitPoints_bounds : 0 ≤ e.exitPoints ∧ e.exitPoints ≤ 8 := by
  have hearly := points_bounds e.earlyReturn (by decide : (0 : ℤ) ≤ 5)
  have hexit := points_bounds e.loopExit (by decide : (0 : ℤ) ≤ 3)
  rw [exitPoints]
  omega

theorem craftPoints_bounds : 0 ≤ e.craftPoints ∧ e.craftPoints ≤ 35 := by
  have hfunctions := points_bounds e.functions (by decide : (0 : ℤ) ≤ 10)
  have hdocumented := points_bounds e.documented (by decide : (0 : ℤ) ≤ 8)
  have herror := points_bounds e.errorHandling (by decide : (0 : ℤ) ≤ 7)
  have hvalidation := points_bounds e.validation (by decide : (0 : ℤ) ≤ 6)
  have hconstants := points_bounds e.constants (by decide : (0 : ℤ) ≤ 4)
  rw [craftPoints]
  omega

theorem sizePoints_bounds : 0 ≤ e.sizePoints ∧ e.sizePoints ≤ 8 := by
  have hlines := points_bounds (5 < e.lines && e.lines < 50) (by decide : (0 : ℤ) ≤ 5)
  have hlength := points_bounds (50 < e.length && e.length < 500) (by decide : (0 : ℤ) ≤ 3)
  rw [sizePoints]
  omega

theorem neglect_bounds : 0 ≤ e.neglect ∧ e.neglect ≤ 23 := by
  have hfunctions := points_bounds (!e.functions && 20 < e.lines) (by decide : (0 : ℤ) ≤ 10)
  have hcomments := points_bounds (!e.comments && 15 < e.lines) (by decide : (0 : ℤ) ≤ 8)
  have hlong := points_bounds (100 < e.lines) (by decide : (0 : ℤ) ≤ 5)
  rw [neglect]
  omega

/-- No evidence scores outside of this range, whatever its counts. -/
theorem unscaledScore_bounds : -8 ≤ e.unscaledScore e.cost ∧ e.unscaledScore e.cost ≤ 136 := by
  have hgrowth := growthWorth_bounds e.fastSearch e.recursion e.nested e.loops
  have hexit := e.exitPoints_bounds
  have hcraft := e.craftPoints_bounds
  have hsize := e.sizePoints_bounds
  have hneglect := e.neglect_bounds
  rw [unscaledScore_eq, growthPoints_eq, startingScore]
  omega

/-- Both ends of the range are reached. -/
example :
    let worst : Evidence := { lines := 101, nested := true, recursion := true }
    let best : Evidence :=
      { lines := 6, length := 51, functions := true, comments := true, errorHandling := true,
        validation := true, constants := true, earlyReturn := true, loopExit := true,
        fastSearch := true }
    worst.unscaledScore worst.cost = -8 ∧ best.unscaledScore best.cost = 136 := by
  decide

end Bounds

end Evidence

end Appraisal
