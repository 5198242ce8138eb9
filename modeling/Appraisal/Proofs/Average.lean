import Appraisal.Archive.Progress
import Appraisal.Proofs.Rounding
import Mathlib.Data.Nat.Log
import Mathlib.Tactic.IntervalCases
import Mathlib.Tactic.NormNum
import Mathlib.Tactic.Ring

/-!
# The average of a user's scores

The average is carried from step to step as a count of hundredths. A step is exact but for its
rounding to hundredths (`exists_roundCents`), so that after a run the average differs from the mean
by what the roundings add up to (`average_run`). They need not cancel: over six scores they are
harmless, over seven the average may be a cent off (`average_off`), and a long history holds on to
its average whatever scores follow (`average_frozen`).
-/

namespace Appraisal

namespace Binary64

/-- The number nearest to a count of hundredths. -/
def hundredths (cents : ℕ) : Binary64 := (ofNat cents).div (ofNat 100)

/-- Whether a number is a rational one rounded to two decimals, up to less than a millionth. -/
def IsRounded (x : Binary64) (value : ℚ) : Prop :=
  ∃ cents : ℕ, |(cents : ℚ) / 100 - value| ≤ 1 / 200 ∧
    ∃ margin < 1 / 10 ^ 6, x.Within (cents / 100) margin

variable {x : Binary64} {value margin : ℚ} {n cents : ℕ}

theorem lt_exactBound (h : n ≤ 2 ^ 32) : n < exactBound := h.trans_lt (by decide)

theorem halfSpacing_seven : halfSpacing 7 = 1 / 2 ^ 47 := by norm_num [halfSpacing]

theorem halfSpacing_seven_nonneg : 0 ≤ halfSpacing 7 := by norm_num [halfSpacing]

section Cents

theorem within_hundredths (h : cents ≤ 10000) :
    (hundredths cents).Within (cents / 100) (halfSpacing 7) := by
  have hcents : (cents : ℚ) ≤ 10000 := by exact_mod_cast h
  have hdiv := (within_ofNat (lt_exactBound (by omega : cents ≤ 2 ^ 32))).div_whole
    (by decide : 0 < 100) (lt_exactBound (by decide)) (by decide : 7 ≤ 1000)
    (by push_cast; linarith)
  rwa [zero_div, zero_add] at hdiv

/-- A number near one up to a hundred is as many hundredths as that one, or nearly so. -/
theorem Within.round_hundred (h : x.Within value margin) (hvalue : value ≤ 100)
    (hmargin : margin ≤ 7 * halfSpacing 7) :
    ∃ cents : ℕ, (x.mul (ofNat 100)).round = .finite false (cents * one) ∧ cents < exactBound ∧
      |(cents : ℚ) - value * 100| ≤ 1 / 2 + 1 / 2 ^ 37 := by
  have hspacing : halfSpacing 14 = 128 * (1 / 2 ^ 47) := by norm_num [halfSpacing]
  rw [halfSpacing_seven] at hmargin
  have hmul := h.mul_whole (lt_exactBound (by decide : 100 ≤ 2 ^ 32)) (by decide : 14 ≤ 1000) <| by
    norm_num at hmargin ⊢
    linarith
  obtain ⟨cents, hround, hnear⟩ := hmul.round
  have hclose : |(cents : ℚ) - value * 100| ≤ 1 / 2 + 1 / 2 ^ 37 := by
    refine hnear.trans ?_
    rw [hspacing]
    norm_num at hmargin ⊢
    linarith
  have hle : (cents : ℚ) ≤ 2 ^ 32 := by
    have := (abs_le.1 hclose).2
    linarith
  exact ⟨cents, hround, lt_exactBound (by exact_mod_cast hle), hclose⟩

theorem Within.roundCents (h : x.Within value margin) (hvalue : value ≤ 100)
    (hmargin : margin ≤ 7 * halfSpacing 7) :
    ∃ cents : ℕ, x.roundCents = hundredths cents ∧
      |(cents : ℚ) - value * 100| ≤ 1 / 2 + 1 / 2 ^ 37 := by
  obtain ⟨cents, hround, hlt, hclose⟩ := h.round_hundred hvalue hmargin
  refine ⟨cents, ?_, hclose⟩
  rw [Binary64.roundCents, hround, hundredths, ofNat_of_lt hlt]

/-- Hundredths are as many as they were made of. -/
theorem round_hundredths (h : cents ≤ 10000) :
    ((hundredths cents).mul (ofNat 100)).round = .finite false (cents * one) := by
  have hcents : (cents : ℚ) ≤ 10000 := by exact_mod_cast h
  have hspacing := halfSpacing_seven_nonneg
  obtain ⟨same, hround, -, hclose⟩ :=
    (within_hundredths h).round_hundred (by linarith) (by linarith)
  rw [div_mul_cancel₀ _ (by norm_num)] at hclose
  rw [hround, eq_of_abs_sub_lt (hclose.trans_lt (by norm_num))]

theorem hundredths_zero : hundredths 0 = .finite false 0 := by decide +kernel

/-- No number is less than a millionth off from hundredths of two counts. -/
theorem cents_unique {same : ℕ} (h : x.Within (cents / 100) (halfSpacing 7))
    (h' : x.Within (same / 100) margin) (hmargin : margin < 1 / 10 ^ 6) : cents = same := by
  have hnear := h.gap_le h'
  rw [halfSpacing_seven, ← sub_div, abs_div, abs_of_pos (by norm_num : (0 : ℚ) < 100),
    div_le_iff₀ (by norm_num)] at hnear
  exact eq_of_abs_sub_lt (by linarith)

end Cents

section Step

variable {score : ℕ}

/-- A power of two near the count bounds the sum of the scores, and with it the spacing there. -/
theorem exists_pow_near (hn : n + 1 < 2 ^ 31) :
    ∃ j, 7 + j ≤ 1000 ∧ n + 1 ≤ 2 ^ j ∧ 2 ^ j ≤ 2 * (n + 1) := by
  have hle : 2 ^ (Nat.log 2 (n + 1) + 1) ≤ 2 * (n + 1) := by
    rw [pow_succ, mul_comm]
    exact Nat.mul_le_mul_left 2 (Nat.pow_log_le_self 2 (Nat.succ_ne_zero n))
  refine ⟨Nat.log 2 (n + 1) + 1, ?_, (Nat.lt_pow_succ_log_self (by decide) _).le, hle⟩
  have hlt : 2 ^ (Nat.log 2 (n + 1) + 1) < 2 ^ 33 := hle.trans_lt (by omega)
  have := (Nat.pow_lt_pow_iff_right (by decide : 1 < 2)).1 hlt
  omega

/-- The product, the sum and the quotient of a step are each off by half a spacing at most, which is
little next to the count. -/
theorem within_quotient (hn : n + 1 < 2 ^ 31) (hcents : cents ≤ 10000) (hscore : score ≤ 100) :
    ((((hundredths cents).mul (ofNat n)).add (ofNat score)).div (ofNat (n + 1))).Within
      ((cents / 100 * n + score) / (n + 1 : ℕ)) (7 * halfSpacing 7) := by
  obtain ⟨j, hbits, hj, hj'⟩ := exists_pow_near hn
  have hpow : (2 : ℚ) ^ (7 + j) = 128 * 2 ^ j := by
    rw [pow_add]
    norm_num
  have hspacing : halfSpacing (7 + j) = 2 ^ j * halfSpacing 7 := by
    rw [halfSpacing, hpow, halfSpacing]
    ring
  have hJ : (n : ℚ) + 1 ≤ 2 ^ j := by exact_mod_cast hj
  have hJ' : (2 : ℚ) ^ j ≤ 2 * (n + 1) := by exact_mod_cast hj'
  generalize (2 : ℚ) ^ j = J at hpow hspacing hJ hJ'
  have hn0 : (0 : ℚ) ≤ n := Nat.cast_nonneg n
  have hcount := mul_le_mul_of_nonneg_right (by linarith : (n : ℚ) ≤ J) halfSpacing_seven_nonneg
  have hdouble := mul_le_mul_of_nonneg_right hJ' halfSpacing_seven_nonneg
  have hsmall : J * halfSpacing 7 ≤ J * 1 :=
    mul_le_mul_of_nonneg_left (by rw [halfSpacing_seven]; norm_num) (by linarith)
  have hc : (cents : ℚ) / 100 * n ≤ 100 * n := by
    have : (cents : ℚ) ≤ 10000 := by exact_mod_cast hcents
    exact mul_le_mul_of_nonneg_right (by linarith) hn0
  have hs : (score : ℚ) ≤ 100 := by exact_mod_cast hscore
  have hproduct : ((hundredths cents).mul (ofNat n)).Within (cents / 100 * n)
      (2 * (J * halfSpacing 7)) := by
    refine ((within_hundredths hcents).mul_whole (lt_exactBound (by omega)) hbits ?_).mono ?_
    · rw [hpow]
      linarith
    · rw [hspacing]
      linarith
  have hsum : (((hundredths cents).mul (ofNat n)).add (ofNat score)).Within
      (cents / 100 * n + score) (3 * (J * halfSpacing 7)) := by
    refine (hproduct.add_whole (lt_exactBound (by omega)) hbits ?_).mono ?_
    · rw [hpow]
      linarith
    · rw [hspacing]
      linarith
  have hN : (0 : ℚ) < (n + 1 : ℕ) := Nat.cast_pos.2 n.succ_pos
  refine (hsum.div_whole n.succ_pos (lt_exactBound (by omega)) (by decide : 7 ≤ 1000) ?_).mono ?_
  · rw [div_lt_iff₀ hN, Nat.cast_succ]
    linarith
  · rw [← le_sub_iff_add_le, div_le_iff₀ hN, Nat.cast_succ]
    linarith

/-- The average after one more score is the hundredths nearest to the exact quotient. -/
theorem exists_roundCents (hn : n + 1 < 2 ^ 31) (hcents : cents ≤ 10000) (hscore : score ≤ 100) :
    ∃ next : ℕ, ((((hundredths cents).mul (ofNat n)).add (ofNat score)).div
        (ofNat (n + 1))).roundCents = hundredths next ∧
      2 * |(n + 1) * next - (n * cents + 100 * score : ℤ)| ≤ n + 1 := by
  have hn0 : (0 : ℚ) ≤ n := Nat.cast_nonneg n
  have hvalue : (cents / 100 * n + score : ℚ) / (n + 1 : ℕ) ≤ 100 := by
    have hc : (cents : ℚ) ≤ 10000 := by exact_mod_cast hcents
    have hs : (score : ℚ) ≤ 100 := by exact_mod_cast hscore
    have := mul_le_mul_of_nonneg_right (by linarith : (cents : ℚ) / 100 ≤ 100) hn0
    rw [div_le_iff₀ (Nat.cast_pos.2 n.succ_pos), Nat.cast_succ]
    linarith
  obtain ⟨next, hnext, hnear⟩ := (within_quotient hn hcents hscore).roundCents hvalue le_rfl
  refine ⟨next, hnext, ?_⟩
  -- the error stays below half of a whole number, so that it does not count among these
  have hexact : ((n + 1) * next - (n * cents + 100 * score) : ℚ) =
      (n + 1) * (next - (cents / 100 * n + score) / (n + 1 : ℕ) * 100) := by
    rw [Nat.cast_succ]
    field_simp
  have hscaled : |((n + 1) * next - (n * cents + 100 * score) : ℚ)| ≤
      (n + 1) * (1 / 2 + 1 / 2 ^ 37) := by
    rw [hexact, abs_mul, abs_of_nonneg (by linarith)]
    exact mul_le_mul_of_nonneg_left hnear (by linarith)
  have hbound : (n : ℚ) + 1 < 2 ^ 31 := by exact_mod_cast hn
  have hlt : 2 * |((n + 1) * next - (n * cents + 100 * score) : ℚ)| < n + 1 + 1 := by linarith
  have hint : 2 * |(n + 1) * next - (n * cents + 100 * score : ℤ)| < n + 1 + 1 := by
    exact_mod_cast hlt
  exact Int.lt_add_one_iff.1 hint

end Step

end Binary64

/-- The score of an analysis, with the language and the company that it was for. -/
structure Scored where
  score : ℤ
  language : String
  company : String

namespace Totals

/-- The statistics after one more analysis. -/
def after (before : Option Totals) (one : Scored) : Totals :=
  next before one.score one.language one.company

/-- The statistics after some more analyses. -/
def folded (before : Option Totals) (scored : List Scored) : Option Totals :=
  scored.foldl (fun before one => some (after before one)) before

/-- The mean of the scores of some analyses. -/
def mean (scored : List Scored) : ℚ := (scored.map Scored.score).sum / scored.length

/-- The count of hundredths that is nearest to the average. -/
def cents (totals : Totals) : ℕ := (totals.average.mul (.ofNat 100)).round.clampNat 0 10000

/-- What the rounding of one step adds to the sum that the average stands for, in hundredths. -/
def roundOff (before after : Totals) (score : ℤ) : ℤ :=
  after.analyses.toInt * after.cents - (before.analyses.toInt * before.cents + 100 * score)

/-- What the rounding of each step adds. -/
def roundOffs : Option Totals → List Scored → List ℤ
  | _, [] => []
  | before, one :: rest =>
    roundOff (before.getD start) (after before one) one.score ::
      roundOffs (some (after before one)) rest

/-- Whether the average over so many analyses is a count of hundredths. -/
structure Averages (totals : Totals) (n cents : ℕ) : Prop where
  analyses : totals.analyses.toInt = n
  average : totals.average = .hundredths cents
  bounded : cents ≤ 10000

variable {totals : Totals} {before : Option Totals} {n cents : ℕ} {one : Scored}

theorem averages_start : start.Averages 0 0 where
  analyses := rfl
  average := Binary64.hundredths_zero.symm
  bounded := Nat.zero_le _

theorem Averages.cents_eq (h : totals.Averages n cents) : totals.cents = cents := by
  rw [Totals.cents, h.average, Binary64.round_hundredths h.bounded, Binary64.clampNat,
    Nat.mul_div_cancel _ Binary64.one_pos]
  have := h.bounded
  simp only [Bool.false_eq_true, if_false]
  omega

theorem Averages.analyses_after (h : (before.getD start).Averages n cents) (hn : n + 1 < 2 ^ 31)
    (one : Scored) : (after before one).analyses.toInt = (n + 1 : ℕ) := by
  have hcount := h.analyses
  rw [after, analyses_next (by omega), hcount, Nat.cast_succ]

theorem Averages.exists_after (h : (before.getD start).Averages n cents) (hn : n + 1 < 2 ^ 31)
    (hone : 0 ≤ one.score ∧ one.score ≤ 100) :
    ∃ next : ℕ, (after before one).Averages (n + 1) next ∧
      2 * |(n + 1) * next - (n * cents + 100 * one.score : ℤ)| ≤ n + 1 := by
  obtain ⟨score, hscore⟩ := Int.eq_ofNat_of_zero_le hone.1
  rw [hscore] at hone ⊢
  obtain ⟨next, hnext, hnear⟩ :=
    Binary64.exists_roundCents hn h.bounded (by omega : score ≤ 100)
  refine ⟨next, ⟨?_, ?_, ?_⟩, hnear⟩
  · exact h.analyses_after hn one
  · rw [← hnext, ← Binary64.ofInt_natCast, ← Binary64.ofInt_natCast, ← Binary64.ofInt_natCast,
      ← h.average, ← h.analyses_after hn one, ← h.analyses, ← hscore]
    rfl
  · have hsum : (n : ℤ) * cents ≤ n * 10000 :=
      mul_le_mul_of_nonneg_left (by exact_mod_cast h.bounded) (Nat.cast_nonneg n)
    have hself := le_abs_self ((n + 1) * next - (n * cents + 100 * score) : ℤ)
    have hle : ((n : ℤ) + 1) * next < (n + 1) * 10001 := by linarith
    have : (next : ℤ) < 10001 := lt_of_mul_lt_mul_left hle (by omega)
    omega

section Unmoved

/-- A score that is near the average does not move it. -/
theorem Averages.unmoved (h : (before.getD start).Averages n cents) (hn : n + 1 < 2 ^ 31)
    (hone : 0 ≤ one.score ∧ one.score ≤ 100)
    (hnear : 2 * |100 * one.score - (cents : ℤ)| < n + 1) :
    (after before one).Averages (n + 1) cents := by
  obtain ⟨next, hnext, hstep⟩ := h.exists_after hn hone
  have hpos : (0 : ℤ) < n + 1 := by omega
  have hmoved : ((n : ℤ) + 1) * |(next : ℤ) - cents| < (n + 1) * 1 := by
    calc ((n : ℤ) + 1) * |(next : ℤ) - cents| = |(n + 1) * (next - cents : ℤ)| := by
          rw [abs_mul, abs_of_pos hpos]
      _ = |((n + 1) * next - (n * cents + 100 * one.score)) + (100 * one.score - cents : ℤ)| := by
          congr 1
          ring
      _ ≤ |(n + 1) * next - (n * cents + 100 * one.score : ℤ)| + |100 * one.score - (cents : ℤ)| :=
          abs_add_le _ _
      _ < (n + 1) * 1 := by linarith
  have hsame := Int.abs_lt_one_iff.1 (lt_of_mul_lt_mul_left hmoved hpos.le)
  obtain rfl : next = cents := by omega
  exact hnext

theorem Averages.unmoved_run : ∀ (scored : List Scored) {before : Option Totals} {n : ℕ},
    (before.getD start).Averages n cents → n + scored.length < 2 ^ 31 →
    (∀ one ∈ scored, (0 ≤ one.score ∧ one.score ≤ 100) ∧
      2 * |100 * one.score - (cents : ℤ)| < n + 1) →
    ((folded before scored).getD start).Averages (n + scored.length) cents
  | [], _, _, h, _, _ => h
  | one :: rest, before, n, h, hcount, hnear => by
    rw [List.length_cons] at hcount ⊢
    obtain ⟨hscore, hone⟩ := hnear one List.mem_cons_self
    have hnext : ((some (after before one)).getD start).Averages (n + 1) cents :=
      h.unmoved (by omega) hscore hone
    have hrest := unmoved_run rest hnext (by omega) fun other hother => by
      obtain ⟨hscore, hnear⟩ := hnear other (List.mem_cons_of_mem _ hother)
      exact ⟨hscore, by push_cast; omega⟩
    rwa [Nat.add_right_comm, Nat.add_assoc] at hrest

end Unmoved

section Run

/-- What every step preserves of the count and of what rounding has added so far holds after a run,
and what has been added is what the steps have added. -/
theorem Averages.run {Holds : ℕ → ℤ → Prop}
    (step : ∀ (n : ℕ) (cents : ℕ) (sum carried : ℤ), Holds n carried →
      2 * |(n + 1) * cents - 100 * sum - carried| ≤ n + 1 →
      Holds (n + 1) ((n + 1) * cents - 100 * sum)) :
    ∀ (scored : List Scored) {before : Option Totals} {n cents : ℕ} {sum : ℤ},
      (before.getD start).Averages n cents → n + scored.length < 2 ^ 31 →
      (∀ one ∈ scored, 0 ≤ one.score ∧ one.score ≤ 100) → Holds n (n * cents - 100 * sum) →
      ∃ last : ℕ, ((folded before scored).getD start).Averages (n + scored.length) last ∧
        ∃ carried : ℤ, Holds (n + scored.length) carried ∧
          carried = (n + scored.length : ℕ) * last - 100 * (sum + (scored.map Scored.score).sum) ∧
          carried = n * cents - 100 * sum + (roundOffs before scored).sum
  | [], before, n, cents, sum, h, _, _, hholds =>
    ⟨cents, h, _, hholds, by simp, by simp [roundOffs]⟩
  | one :: rest, before, n, cents, sum, h, hcount, hscores, hholds => by
    rw [List.length_cons] at hcount
    obtain ⟨next, hnext, hnear⟩ := h.exists_after (by omega) (hscores one List.mem_cons_self)
    have hnext' : ((some (after before one)).getD start).Averages (n + 1) next := hnext
    have hholds' : Holds (n + 1) ((n + 1 : ℕ) * next - 100 * (sum + one.score)) := by
      rw [Nat.cast_succ]
      refine step n next (sum + one.score) _ hholds ?_
      convert hnear using 3
      ring
    obtain ⟨last, hlast, carried, hcarried, hsum, hrounded⟩ := run step rest hnext' (by omega)
      (fun other hother => hscores other (List.mem_cons_of_mem _ hother)) hholds'
    have hlength : n + 1 + rest.length = n + (one :: rest).length := by
      rw [List.length_cons]
      omega
    rw [hlength] at hlast hcarried hsum
    refine ⟨last, hlast, carried, hcarried, ?_, ?_⟩
    · rw [hsum, List.map_cons, List.sum_cons]
      ring
    · have hoff : roundOff (before.getD start) (after before one) one.score =
          (n + 1) * next - (n * cents + 100 * one.score) := by
        rw [roundOff, hnext.cents_eq, h.cents_eq, h.analyses, hnext.analyses, Nat.cast_succ]
      rw [hrounded, roundOffs, List.sum_cons, hoff]
      push_cast
      ring

end Run

section Carried

/-- What rounding may have added, in hundredths, over up to six analyses: the count times the
hundredths differs from a multiple of a hundred by a multiple of what divides both. -/
def earlyBound : ℕ → ℤ
  | 3 => 1
  | 6 => 2
  | _ => 0

/-- How far rounding may have carried the average off. -/
structure Carried (n : ℕ) (carried : ℤ) : Prop where
  early : n ≤ 6 → |carried| ≤ earlyBound n
  late : 4 * |carried| ≤ n * (n + 1)

theorem Carried.step (n cents : ℕ) (sum carried : ℤ) (h : Carried n carried)
    (hnear : 2 * |(n + 1) * cents - 100 * sum - carried| ≤ n + 1) :
    Carried (n + 1) ((n + 1) * cents - 100 * sum) where
  early hn := by
    have hearly := abs_le.1 (h.early (by omega))
    obtain ⟨hlow, hhigh⟩ : -(n + 1 : ℤ) ≤ 2 * ((n + 1) * cents - 100 * sum - carried) ∧
        2 * ((n + 1) * cents - 100 * sum - carried) ≤ n + 1 := by
      rw [← abs_le, abs_mul]
      exact hnear
    rw [abs_le]
    have hn' : n ≤ 5 := by omega
    interval_cases n <;> simp only [earlyBound] at hearly ⊢ <;> push_cast at * <;> omega
  late := by
    have htriangle : |(n + 1) * cents - 100 * sum| ≤
        |(n + 1) * cents - 100 * sum - carried| + |carried| := by
      simpa using abs_add_le ((n + 1) * cents - 100 * sum - carried : ℤ) carried
    have hlate := h.late
    push_cast
    linarith

theorem carried_zero : Carried 0 0 := ⟨fun _ => by decide, by decide⟩

end Carried

section Mean

variable {scored : List Scored}

theorem exists_folded (h : scored ≠ []) :
    ∃ totals, folded none scored = some totals := by
  cases scored using List.reverseRecOn with
  | nil => exact absurd rfl h
  | append_singleton front last => exact ⟨_, by rw [folded, List.foldl_append]; rfl⟩

/-- A count of hundredths is off from a mean by what rounding has added to the sum. -/
theorem abs_sub_mean {carried : ℤ} (h : scored ≠ [])
    (hsum : carried = scored.length * cents - 100 * (scored.map Scored.score).sum) :
    |(cents : ℚ) / 100 - mean scored| = |(carried : ℚ)| / (100 * scored.length) := by
  have hpos : (0 : ℚ) < scored.length := Nat.cast_pos.2 (List.length_pos_iff.2 h)
  have hdiff : (cents : ℚ) / 100 - mean scored = carried / (100 * scored.length) := by
    rw [hsum, mean]
    push_cast
    field_simp
  rw [hdiff, abs_div, abs_of_pos (by positivity : (0 : ℚ) < 100 * scored.length)]

theorem isRounded_iff {carried : ℤ} (h : scored ≠ []) (havg : totals.Averages scored.length cents)
    (hsum : carried = scored.length * cents - 100 * (scored.map Scored.score).sum) :
    totals.average.IsRounded (mean scored) ↔ 2 * |carried| ≤ scored.length := by
  have hpos : (0 : ℚ) < scored.length := Nat.cast_pos.2 (List.length_pos_iff.2 h)
  have hiff : |(cents : ℚ) / 100 - mean scored| ≤ 1 / 200 ↔ 2 * |carried| ≤ scored.length := by
    rw [abs_sub_mean h hsum, div_le_iff₀ (by positivity)]
    have hcast : (2 * |carried| ≤ scored.length) ↔ 2 * |(carried : ℚ)| ≤ scored.length := by
      norm_cast
    rw [hcast]
    constructor <;> intro h <;> linarith
  have hwithin := Binary64.within_hundredths havg.bounded
  rw [← havg.average] at hwithin
  rw [← hiff]
  constructor
  · rintro ⟨same, hnear, margin, hmargin, hsame⟩
    rwa [← Binary64.cents_unique hwithin hsame hmargin] at hnear
  · intro hnear
    exact ⟨cents, hnear, _, by norm_num [Binary64.halfSpacing], hwithin⟩

/-- The average is the mean rounded to two decimals if and only if what the rounding of all steps
adds up to is at most half of the count. That is so up to six analyses; after more of them the
average may be off by an amount that grows with their count. -/
theorem average_run (scored : List Scored) (h : scored ≠ []) (hcount : scored.length < 2 ^ 31)
    (hscores : ∀ one ∈ scored, 0 ≤ one.score ∧ one.score ≤ 100) :
    ∃ totals, folded none scored = some totals ∧
      (totals.average.IsRounded (mean scored) ↔
        2 * |(roundOffs none scored).sum| ≤ scored.length) ∧
      (scored.length ≤ 6 → totals.average.IsRounded (mean scored)) ∧
      totals.average.Within (mean scored) ((scored.length + 1) / 400 + 1 / 10 ^ 6) := by
  obtain ⟨totals, htotals⟩ := exists_folded h
  have hstart : ((none : Option Totals).getD start).Averages 0 0 := averages_start
  have hcarried : Carried 0 ((0 : ℕ) * (0 : ℕ) - 100 * 0) := carried_zero
  obtain ⟨cents, havg, carried, hcarried, hsum, hrounded⟩ :=
    Averages.run Carried.step scored hstart (by rwa [Nat.zero_add]) hscores hcarried
  rw [Nat.zero_add, zero_add] at hsum
  rw [Nat.zero_add] at havg hcarried
  rw [htotals] at havg
  rw [Nat.cast_zero, zero_mul, mul_zero, sub_zero, zero_add] at hrounded
  have hiff := isRounded_iff h havg hsum
  refine ⟨totals, htotals, ?_, fun hshort => ?_, ?_⟩
  · rwa [hrounded] at hiff
  · refine hiff.2 ((mul_le_mul_of_nonneg_left (hcarried.early hshort) (by decide)).trans ?_)
    generalize scored.length = n at hshort
    interval_cases n <;> decide
  · have hpos : (0 : ℚ) < scored.length := Nat.cast_pos.2 (List.length_pos_iff.2 h)
    have hlate : 4 * |(carried : ℚ)| ≤ scored.length * (scored.length + 1) := by
      exact_mod_cast hcarried.late
    have hgap : |(cents : ℚ) / 100 - mean scored| ≤ (scored.length + 1) / 400 := by
      rw [abs_sub_mean h hsum, div_le_div_iff₀ (by positivity) (by norm_num)]
      linarith
    have hwithin := Binary64.within_hundredths havg.bounded
    rw [← havg.average] at hwithin
    refine (hwithin.of_near hgap).mono ?_
    rw [add_comm]
    exact add_le_add_right (by norm_num [Binary64.halfSpacing]) _

/-- After twenty thousand analyses no score moves the average any more. -/
theorem average_frozen (front rest : List Scored) (hfront : 20000 ≤ front.length)
    (hcount : front.length + rest.length < 2 ^ 31)
    (hscores : ∀ one ∈ front ++ rest, 0 ≤ one.score ∧ one.score ≤ 100) :
    (folded none (front ++ rest)).map average = (folded none front).map average := by
  have hfrontScores : ∀ one ∈ front, 0 ≤ one.score ∧ one.score ≤ 100 :=
    fun one hone => hscores one (List.mem_append_left rest hone)
  obtain ⟨cents, havg, -⟩ := @Averages.run (fun _ _ => True) (fun _ _ _ _ _ _ => trivial) front
    none 0 0 0 averages_start (by omega) hfrontScores trivial
  have hcents := havg.bounded
  have hrest := havg.unmoved_run rest (by omega) fun one hone => by
    have hone := hscores one (List.mem_append_right front hone)
    have hgap : |100 * one.score - (cents : ℤ)| ≤ 10000 := abs_le.2 ⟨by omega, by omega⟩
    exact ⟨hone, by push_cast; omega⟩
  have hne : front ≠ [] := List.ne_nil_of_length_pos (by omega)
  obtain ⟨totals, htotals⟩ := exists_folded hne
  obtain ⟨later, hlater⟩ := exists_folded (List.append_ne_nil_of_left_ne_nil hne rest)
  have happend : folded (folded none front) rest = folded none (front ++ rest) :=
    List.foldl_append.symm
  rw [happend, hlater] at hrest
  rw [htotals] at havg
  rw [htotals, hlater]
  exact congrArg some (hrest.average.trans havg.average.symm)

/-- Seven scores with a mean of one seventh. -/
def seventh : List Scored := [0, 0, 0, 0, 0, 1, 0].map fun score => ⟨score, "python", "google"⟩

theorem average_run_seventh :
    ∃ totals, folded none seventh = some totals ∧ ¬ totals.average.IsRounded (mean seventh) := by
  obtain ⟨totals, htotals, hiff, -, -⟩ :=
    average_run seventh (by decide) (by decide) (by decide)
  refine ⟨totals, htotals, fun hrounded => ?_⟩
  have hsum : (roundOffs none seventh).sum = 5 := by decide +kernel
  have hle := hiff.1 hrounded
  rw [hsum] at hle
  exact absurd hle (by decide)

/-- The average of seven scores is 0.15 where their mean is one seventh. -/
theorem average_off :
    (∀ one ∈ seventh, 0 ≤ one.score ∧ one.score ≤ 100) ∧
      ∃ totals, folded none seventh = some totals ∧
        ¬ totals.average.Within (mean seventh) (1 / 200 + 1 / 10 ^ 6) := by
  obtain ⟨totals, htotals⟩ := exists_folded (by decide : seventh ≠ [])
  have haverage : (folded none seventh).map Totals.average = some (.hundredths 15) := by
    decide +kernel
  have hmean : mean seventh = 1 / 7 := by norm_num [mean, seventh]
  rw [htotals, Option.map_some, Option.some_inj] at haverage
  refine ⟨by decide, totals, htotals, fun hwithin => ?_⟩
  rw [haverage, hmean] at hwithin
  have hgap := (Binary64.within_hundredths (by decide : 15 ≤ 10000)).gap_le hwithin
  norm_num [Binary64.halfSpacing, abs_of_pos] at hgap

end Mean

end Totals

end Appraisal
