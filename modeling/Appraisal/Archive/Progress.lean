import Appraisal.Binary64.Basic

/-!
# Progress of a user

The running statistics over a user's analyses. `Totals.next` folds in one more score: the average
is carried on in binary64 and rounded to two decimals after every step. The count has 32 bits, and
the one after the largest is the smallest.
-/

namespace Appraisal

/-- The statistics over the analyses of a user. -/
structure Totals where
  analyses : Int32
  average : Binary64
  best : Int
  language : Option String
  companies : List String
deriving DecidableEq, Repr

/-- A number rounded to two decimals. -/
def Binary64.roundCents (x : Binary64) : Binary64 :=
  (x.mul (ofNat 100)).round.div (ofNat 100)

namespace Totals

/-- The statistics before the first analysis. -/
def start : Totals := ⟨0, .finite false 0, 0, none, []⟩

/-- Whether the count has no successor. -/
def isFull (totals : Totals) : Bool := totals.analyses == Int32.maxValue

/-- The statistics after one more analysis, whose language and company replace those before. -/
def next (previous : Option Totals) (score : Int) (language company : String) : Totals :=
  let before := previous.getD start
  let count := before.analyses + 1
  let sum := (before.average.mul (.ofInt before.analyses.toInt)).add (.ofInt score)
  { analyses := count
    average := (sum.div (.ofInt count.toInt)).roundCents
    best := max before.best score
    language := some language
    companies := [company] }

variable {totals : Totals} {previous : Option Totals}

theorem isFull_iff : totals.isFull = true ↔ totals.analyses.toInt = 2147483647 := by
  rw [isFull, beq_iff_eq, ← Int32.toInt_inj]
  rfl

/-- A count that has a successor goes on to it. -/
theorem analyses_next (h : (previous.getD start).analyses.toInt < 2147483647) (score : Int)
    (language company : String) : (next previous score language company).analyses.toInt =
      (previous.getD start).analyses.toInt + 1 := by
  have hle := (previous.getD start).analyses.le_toInt
  show ((previous.getD start).analyses + 1).toInt = _
  rw [Int32.toInt_add]
  exact Int.bmod_eq_of_le (by simp; omega) (by simp; omega)

end Totals

end Appraisal
