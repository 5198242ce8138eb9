import Appraisal.Proofs.Points
import Appraisal.Proofs.Rounding
import Mathlib.Data.Rat.Floor

/-!
# Scores are scaled exactly

A percentage such as 1.10 is not held exactly, so a product that is a half in decimal might be
rounded to the wrong side. It never is (`toNat_scaledScore`): what is not a half is at least a
hundredth away from one, and at a half the factor is either no less than its percentage, so that
rounding keeps to the upper side (`le_nearest`), or that of 98 percent, for which only three scores
give a half. All this needs the scores to be small, and no evidence scores outside of -8 to 136
(`unscaledScore_bounds`).
-/

namespace Appraisal

/-- The nearest integer, a half going away from zero. -/
def roundAway (x : ℚ) : ℤ := if 0 ≤ x then ⌊x + 1 / 2⌋ else ⌈x - 1 / 2⌉

/-- A percentage of a score as computed without error, rounded and held between 15 and 98. -/
def exactScore (raw : ℤ) (percent : ℕ) : ℤ := max 15 (min 98 (roundAway (raw * percent / 100)))

/-- The percentage for a company, by its name in lower case. -/
def percentOf : String → ℕ
  | "google" => 110
  | "amazon" => 105
  | "microsoft" => 108
  | "meta" => 112
  | "apple" => 103
  | "netflix" => 102
  | "infosys" => 100
  | "tcs" => 98
  | _ => 100

def percents : List ℕ := [110, 105, 108, 112, 103, 102, 100, 98]

/-- The score of a text before the company is looked at. -/
def rawScore (code : String) : ℤ :=
  let evidence := Evidence.ofText code.toList
  evidence.unscaledScore evidence.cost

section Exact

theorem roundAway_mono {x y : ℚ} (h : x ≤ y) : roundAway x ≤ roundAway y := by
  unfold roundAway
  split_ifs with hx hy hy
  · exact Int.floor_le_floor (by linarith)
  · linarith
  · have hceil : ⌈x - 1 / 2⌉ ≤ 0 := Int.ceil_le.2 (by push_cast; linarith)
    have hfloor : 0 ≤ ⌊y + 1 / 2⌋ := Int.floor_nonneg.2 (by linarith)
    exact hceil.trans hfloor
  · exact Int.ceil_le_ceil (by linarith)

theorem exactScore_le_of_mul_le {raw other : ℤ} {percent rate : ℕ}
    (h : raw * percent ≤ other * rate) : exactScore raw percent ≤ exactScore other rate := by
  have hproduct : (raw : ℚ) * percent ≤ other * rate := by exact_mod_cast h
  have hround := roundAway_mono (by linarith : (raw : ℚ) * percent / 100 ≤ other * rate / 100)
  unfold exactScore
  omega

theorem exactScore_mono {raw higher : ℤ} (percent : ℕ) (h : raw ≤ higher) :
    exactScore raw percent ≤ exactScore higher percent :=
  exactScore_le_of_mul_le (Int.mul_le_mul_of_nonneg_right h (Int.natCast_nonneg percent))

theorem exactScore_of_nonpos {raw : ℤ} (percent : ℕ) (h : raw ≤ 0) :
    exactScore raw percent = 15 := by
  have hle : exactScore raw percent ≤ exactScore 0 percent := exactScore_mono percent h
  have hzero : exactScore 0 percent = 15 := by norm_num [exactScore, roundAway]
  have hge : 15 ≤ exactScore raw percent := le_max_left _ _
  omega

theorem exactScore_mono_percent (raw : ℤ) {percent other : ℕ} (h : percent ≤ other) :
    exactScore raw percent ≤ exactScore raw other := by
  rcases le_total raw 0 with hneg | hnonneg
  · rw [exactScore_of_nonpos percent hneg, exactScore_of_nonpos other hneg]
  · exact exactScore_le_of_mul_le (Int.mul_le_mul_of_nonneg_left (Int.ofNat_le.2 h) hnonneg)

theorem exactScore_natCast (n percent : ℕ) :
    exactScore n percent = (max 15 (min 98 ((n * percent + 50) / 100)) : ℕ) := by
  have hround : roundAway ((n : ℤ) * percent / 100) = ((n * percent + 50) / 100 : ℕ) := by
    have hle := Nat.div_mul_le_self (n * percent + 50) 100
    have hlt := Nat.lt_div_mul_add (a := n * percent + 50) (b := 100) (by decide)
    generalize (n * percent + 50) / 100 = k at hle hlt ⊢
    have hle' : (k : ℚ) * 100 ≤ n * percent + 50 := by exact_mod_cast hle
    have hlt' : (n * percent + 50 : ℚ) < k * 100 + 100 := by exact_mod_cast hlt
    have hnonneg : (0 : ℚ) ≤ (n : ℤ) * percent / 100 := by positivity
    rw [roundAway, if_pos hnonneg, Int.floor_eq_iff]
    push_cast
    constructor <;> linarith
  rw [exactScore, hround]
  push_cast
  rfl

end Exact

namespace Binary64

variable {units n percent : ℕ}

section Percentages

/-- The units of a percentage. -/
def percentUnits (percent : ℕ) : ℕ := nearest (percent * one) 100

theorem ofDecimal_percent (h : 0 < percent) :
    ofDecimal false percent (-2) = ofRatio false (percent * one) 100 := by
  have hfar : ¬ ((-2 : ℤ) + digitBound percent < -1080) := by omega
  rw [ofDecimal, if_neg h.ne', if_neg (by decide), if_neg hfar, if_neg (by decide)]
  rfl

theorem within_percent (h : 0 < percent) (h' : percent < 200) :
    (ofDecimal false percent (-2)).Within (percent / 100) (halfSpacing 1) := by
  have hone := one_pos_rat.ne'
  have hexact : ((percent * one : ℕ) : ℚ) / ((100 : ℕ) * one) = percent / 100 := by
    push_cast
    field_simp
  have hpercent : (percent : ℚ) < 200 := by exact_mod_cast h'
  rw [ofDecimal_percent h, ← hexact]
  refine within_ofRatio (by decide) (by decide) ?_
  rw [hexact, div_lt_iff₀ (by norm_num)]
  linarith

theorem ofDecimal_percent_eq (h : 0 < percent) (h' : percent < 200) :
    ofDecimal false percent (-2) = finite false (percentUnits percent) :=
  (within_percent h h').eq_nearest (ofDecimal_percent h)

theorem ofNat_mul_percent (hn : n < exactBound) (h : 0 < percent) (h' : percent < 200) :
    (ofNat n).mul (ofDecimal false percent (-2)) =
      ofRatio false (n * one * percentUnits percent) one := by
  rw [ofDecimal_percent_eq h h', ofNat_of_lt hn, mul, bne_self_eq_false]

/-- The units of a percentage of a whole number. -/
def productUnits (n percent : ℕ) : ℕ := nearest (n * one * percentUnits percent) one

theorem within_product (hn : n ≤ 136) (h : 0 < percent) (h' : percent < 200) :
    ((ofNat n).mul (ofDecimal false percent (-2))).Within (percent / 100 * n) (1 / 400) := by
  have hn' : (n : ℚ) ≤ 136 := by exact_mod_cast hn
  have hpercent : (percent : ℚ) < 200 := by exact_mod_cast h'
  have hlt : n < exactBound := hn.trans_lt (by decide)
  have hcomm : (ofNat n).mul (ofDecimal false percent (-2)) =
      (ofDecimal false percent (-2)).mul (ofNat n) := by
    rw [ofDecimal_percent_eq h h', ofNat_of_lt hlt, mul, mul, Nat.mul_comm]
  have hbelow : (percent / 100 + halfSpacing 1) * n < 2 ^ 9 := by
    have hfactor : percent / 100 + halfSpacing 1 ≤ 3 := by
      norm_num [halfSpacing]
      linarith
    calc (percent / 100 + halfSpacing 1) * n ≤ 3 * 136 :=
          mul_le_mul hfactor hn' (Nat.cast_nonneg n) (by norm_num)
      _ < 2 ^ 9 := by norm_num
  rw [hcomm]
  refine ((within_percent h h').mul_whole hlt (by decide : 9 ≤ 1000) hbelow).mono ?_
  norm_num [halfSpacing]
  linarith

theorem ofNat_mul_percent_eq (hn : n ≤ 136) (h : 0 < percent) (h' : percent < 200) :
    (ofNat n).mul (ofDecimal false percent (-2)) = finite false (productUnits n percent) :=
  (within_product hn h h').eq_nearest (ofNat_mul_percent (hn.trans_lt (by decide)) h h')

/-- In hundredths the product is off by less than a half. -/
theorem product_close (hn : n ≤ 136) (h : 0 < percent) (h' : percent < 200) :
    200 * productUnits n percent < 2 * (n * percent * one) + one ∧
      2 * (n * percent * one) < 200 * productUnits n percent + one := by
  obtain ⟨units, hunits, hclose⟩ := within_product hn h h'
  rw [ofNat_mul_percent_eq hn h h', finite.injEq] at hunits
  rw [hunits.2]
  have hone := one_pos_rat
  have hscaled : |(200 * units - 2 * (n * percent * one) : ℚ)| < one := by
    have heq : (200 * units - 2 * (n * percent * one) : ℚ) =
        200 * one * (units / one - percent / 100 * n) := by
      field_simp
      ring
    have hpos : (0 : ℚ) < 200 * one := mul_pos (by norm_num) hone
    rw [heq, abs_mul, abs_of_pos hpos]
    calc 200 * one * |(units / one - percent / 100 * n : ℚ)|
        ≤ 200 * one * (1 / 400) := mul_le_mul_of_nonneg_left hclose hpos.le
      _ < one := by linarith
  obtain ⟨hlower, hupper⟩ := abs_lt.1 hscaled
  constructor
  · have : (200 * units : ℚ) < 2 * (n * percent * one) + one := by linarith
    exact_mod_cast this
  · have : (2 * (n * percent * one) : ℚ) < 200 * units + one := by linarith
    exact_mod_cast this

/-- The product is rounded like the exact one if it is not below a half where that is a half. -/
theorem round_product (hn : n ≤ 136) (h : 0 < percent) (h' : percent < 200)
    (hhalf : n * percent % 100 = 50 → n * percent * one ≤ 100 * productUnits n percent) :
    (2 * productUnits n percent + one) / (2 * one) = (n * percent + 50) / 100 := by
  obtain ⟨hupper, hlower⟩ := product_close hn h h'
  have hsplit := Nat.div_add_mod (n * percent + 50) 100
  have hrest := Nat.mod_lt (n * percent + 50) (by decide : 0 < 100)
  have htie : (n * percent + 50) % 100 = 0 → n * percent % 100 = 50 := by omega
  generalize n * percent = product at *
  generalize (product + 50) / 100 = k at *
  generalize (product + 50) % 100 = rest at *
  generalize productUnits n percent = units at *
  have hscaled : 100 * (k * one) + rest * one = product * one + 50 * one := by
    rw [← Nat.mul_assoc, ← Nat.add_mul, hsplit, Nat.add_mul]
  have hone := one_pos
  have hle : k * (2 * one) ≤ 2 * units + one := by
    rw [Nat.mul_left_comm]
    rcases Nat.eq_zero_or_pos rest with rfl | hpos
    · have hat := hhalf (htie rfl)
      omega
    · have hrest' : one ≤ rest * one := Nat.le_mul_of_pos_left one hpos
      omega
  have hlt : 2 * units + one < (k + 1) * (2 * one) := by
    have hrest' : rest * one ≤ 99 * one := Nat.mul_le_mul_right one (Nat.le_of_lt_succ hrest)
    rw [Nat.mul_left_comm, Nat.add_mul]
    omega
  exact Nat.div_eq_of_lt_le hle hlt

end Percentages

section Halves

theorem spacing_dvd_half {bits : ℕ} (hbits : bits ≤ 52) (hunits : units < pow2 (bits + 1074)) :
    spacing units ∣ pow2 1073 := by
  have hlog : units.log2 ≤ bits + 1073 := by
    rcases Nat.eq_zero_or_pos units with rfl | hpos
    · rw [Nat.log2_zero]
      exact Nat.zero_le _
    · have := (Nat.log2_lt hpos.ne').2 hunits
      omega
  exact pow2_dvd_pow2 (by omega)

/-- A factor no less than its percentage does not bring a product below a half. -/
theorem half_le_of_percent_le (hn : n ≤ 136) (hbound : percentUnits percent < 2 * one)
    (hle : percent * one ≤ 100 * percentUnits percent) (hhalf : n * percent % 100 = 50) :
    n * percent * one ≤ 100 * productUnits n percent := by
  obtain ⟨k, hk⟩ : ∃ k, n * percent = 100 * k + 50 := ⟨n * percent / 100, by omega⟩
  -- the exact product in units, of which half a number is a multiple
  have hunits : n * percent * one = 100 * ((2 * k + 1) * pow2 1073) := by
    rw [hk, one, show 1074 = 1073 + 1 from rfl, pow2_succ]
    ring
  have hfactor : (2 * k + 1) * pow2 1073 ≤ n * percentUnits percent := by
    have hmul := Nat.mul_le_mul_left n hle
    rw [← Nat.mul_assoc, hunits, Nat.mul_left_comm n 100] at hmul
    exact Nat.le_of_mul_le_mul_left hmul (by decide)
  have hlt : n * percentUnits percent < pow2 (9 + 1074) :=
    calc n * percentUnits percent ≤ 136 * (2 * one) := Nat.mul_le_mul hn hbound.le
      _ = 272 * one := by omega
      _ < pow2 (9 + 1074) := mul_one_lt (by decide)
  rw [hunits, productUnits, Nat.mul_right_comm]
  refine Nat.mul_le_mul_left 100 (le_nearest one_pos ?_ (Nat.mul_le_mul_right one hfactor))
  rw [Nat.mul_div_cancel _ one_pos]
  exact Nat.dvd_mul_left_of_dvd (spacing_dvd_half (by decide) hlt) _

/-- Of the percentages only that of 98 is held as less than it is. Its products at the three scores
where they are a half are computed. -/
theorem half_le (hp : percent ∈ percents) (hn : n ≤ 136)
    (hhalf : n * percent % 100 = 50) : n * percent * one ≤ 100 * productUnits n percent := by
  have hupper : ∀ percent ∈ [110, 105, 108, 112, 103, 102, 100],
      percentUnits percent < 2 * one ∧ percent * one ≤ 100 * percentUnits percent := by
    decide +kernel
  have hlower : ∀ n ∈ [25, 75, 125], n * 98 * one ≤ 100 * productUnits n 98 := by
    decide +kernel
  rcases List.mem_append.1 (show percent ∈ [110, 105, 108, 112, 103, 102, 100] ++ [98] from hp)
    with hp | hp
  · obtain ⟨hbound, hle⟩ := hupper percent hp
    exact half_le_of_percent_le hn hbound hle hhalf
  · obtain rfl := List.mem_singleton.1 hp
    refine hlower n ?_
    simp only [List.mem_cons, List.not_mem_nil, or_false]
    omega

end Halves

end Binary64

section Companies

variable {raw : ℤ}

theorem percentOf_mem (name : String) : percentOf name ∈ percents := by
  unfold percentOf
  split <;> decide

theorem companyPercent_eq (company : String) :
    companyPercent company = percentOf (Text.lowered company) := by
  unfold companyPercent percentOf
  generalize Text.lowered company = name
  split
  case h_9 hgoogle hamazon hmicrosoft hmeta happle hnetflix hinfosys htcs =>
    have hnone : companyPercents.find? (fun entry => entry.1 == name) = none := by
      refine List.find?_eq_none.2 fun entry hentry heq => ?_
      obtain rfl := eq_of_beq heq
      simp only [companyPercents, List.mem_cons, List.not_mem_nil, or_false] at hentry
      rcases hentry with rfl | rfl | rfl | rfl | rfl | rfl | rfl | rfl <;> contradiction
    rw [hnone]
    rfl
  all_goals rfl

theorem bounds_of_mem_percents : ∀ {percent : ℕ}, percent ∈ percents →
    0 < percent ∧ percent < 200 := by
  decide

theorem scaledScore_natCast {n percent : ℕ} (hn : n ≤ 136)
    (hp : percent ∈ percents) :
    (scaledScore n (.ofDecimal false percent (-2))).toNat =
      max 15 (min 98 ((n * percent + 50) / 100)) := by
  obtain ⟨hpos, hlt⟩ := bounds_of_mem_percents hp
  rw [scaledScore, Binary64.ofInt_natCast, Binary64.ofNat_mul_percent_eq hn hpos hlt,
    Binary64.round, Binary64.round_product hn hpos hlt (Binary64.half_le hp hn), Binary64.clampNat,
    Nat.mul_div_cancel _ Binary64.one_pos, UInt8.toNat_ofNat']
  simp only [minScore, maxScore, Bool.false_eq_true, if_false]
  omega

theorem scaledScore_of_neg {factor : Binary64} {units : ℕ} (hraw : raw < 0)
    (habs : raw.natAbs < Binary64.exactBound) (hfactor : factor = .finite false units) :
    (scaledScore raw factor).toNat = 15 := by
  have hsign : decide (raw < 0) = true := decide_eq_true hraw
  rw [scaledScore, Binary64.ofInt_of_natAbs_lt habs, hsign, hfactor, Binary64.mul, Bool.bne_false,
    Binary64.clampNat_round_negative]
  rfl

/-- Computed in binary64, a score is scaled like the exact one. -/
theorem toNat_scaledScore (hraw : -8 ≤ raw ∧ raw ≤ 136) (company : String) :
    ((scaledScore raw (companyFactor company)).toNat : ℤ) =
      exactScore raw (percentOf (Text.lowered company)) := by
  have hmem := percentOf_mem (Text.lowered company)
  rw [companyFactor, companyPercent_eq]
  generalize percentOf (Text.lowered company) = percent at hmem ⊢
  obtain ⟨hpos, hlt⟩ := bounds_of_mem_percents hmem
  rcases lt_or_ge raw 0 with hneg | hnonneg
  · have habs : raw.natAbs < Binary64.exactBound :=
      lt_of_le_of_lt (by omega : raw.natAbs ≤ 8) (by decide)
    rw [scaledScore_of_neg hneg habs (Binary64.ofDecimal_percent_eq hpos hlt),
      exactScore_of_nonpos percent hneg.le]
    rfl
  · obtain ⟨n, rfl⟩ := Int.eq_ofNat_of_zero_le hnonneg
    rw [scaledScore_natCast (by omega) hmem, exactScore_natCast]

theorem scaledScore_le_of_exact {other : ℤ} {company rival : String}
    (hraw : -8 ≤ raw ∧ raw ≤ 136) (hother : -8 ≤ other ∧ other ≤ 136)
    (h : exactScore raw (percentOf (Text.lowered company)) ≤
      exactScore other (percentOf (Text.lowered rival))) :
    scaledScore raw (companyFactor company) ≤ scaledScore other (companyFactor rival) := by
  rw [← toNat_scaledScore hraw, ← toNat_scaledScore hother] at h
  exact UInt8.le_iff_toNat_le.2 (by exact_mod_cast h)

end Companies

section Reports

theorem rawScore_bounds (code : String) : -8 ≤ rawScore code ∧ rawScore code ≤ 136 :=
  (Evidence.ofText code.toList).unscaledScore_bounds

theorem overallScore_heuristic (code : String) (language : Language) (company : String) :
    (Report.heuristic code language company).overallScore =
      scaledScore (rawScore code) (companyFactor company) := rfl

theorem overallScore_heuristic_le (code : String) (language other : Language)
    {company rival : String}
    (h : percentOf (Text.lowered company) ≤ percentOf (Text.lowered rival)) :
    (Report.heuristic code language company).overallScore ≤
      (Report.heuristic code other rival).overallScore := by
  rw [overallScore_heuristic, overallScore_heuristic]
  exact scaledScore_le_of_exact (rawScore_bounds code) (rawScore_bounds code)
    (exactScore_mono_percent (rawScore code) h)

/-- The score of a text for a company is the exact one, and no company with a higher percentage
scores the text lower. -/
theorem Report.exact_heuristic (code : String) (language : Language) (company : String) :
    (-8 ≤ rawScore code ∧ rawScore code ≤ 136) ∧
      ((heuristic code language company).overallScore.toNat : ℤ) =
        exactScore (rawScore code) (percentOf (Text.lowered company)) ∧
      (∀ other rival, percentOf (Text.lowered company) ≤ percentOf (Text.lowered rival) →
        (heuristic code language company).overallScore ≤
          (heuristic code other rival).overallScore) ∧
      (heuristic code language "tcs").overallScore ≤
        (heuristic code language "meta").overallScore :=
  ⟨rawScore_bounds code, toNat_scaledScore (rawScore_bounds code) company,
    fun other _ h => overallScore_heuristic_le code language other h,
    overallScore_heuristic_le code language language (by decide)⟩

/-- The products of this text are both a half, 73.5 and 82.5. -/
theorem Report.exact_heuristic_halves :
    rawScore "def # try" = 75 ∧
      percentOf (Text.lowered "TCS") ≤ percentOf (Text.lowered "Google") ∧
      (heuristic "def # try" .python "TCS").overallScore ≤
        (heuristic "def # try" .java "Google").overallScore :=
  ⟨by decide, by decide, (exact_heuristic "def # try" .python "TCS").2.2.1 .java "Google"
    (by decide)⟩

example : scaledScore 75 (companyFactor "TCS") = 74 ∧
    scaledScore 75 (companyFactor "Google") = 83 := by
  decide +kernel

end Reports

end Appraisal
