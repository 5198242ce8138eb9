import Appraisal.Proofs.Rounding
import Mathlib.Tactic.Ring

/-!
# How far arithmetic in binary64 is off in proportion

A number that is not tiny is held to 53 binary digits, so that the error of one rounding is at most
one part in `2 ^ 53` of it (`within_ofRatio_of_le`), whether the number is near one or near the
largest there is. A product or a quotient of two numbers so held is off by little more
(`Proportional.mul`, `Proportional.div`). That is far too little to bring a whole number of 32 bits
to another one when it is rounded (`clampNat_round_of_within`).
-/

namespace Appraisal.Binary64

/-- What a literal of the largest size is less than. -/
def decimalBound : ℕ := 10 ^ 308

variable {num den n : ℕ} {value : ℚ}

theorem decimalBound_mul_one_le : 5 * decimalBound * one ≤ 3 * overflow := by decide +kernel

theorem two_pow_64_le_decimalBound : 2 ^ 64 ≤ decimalBound := by decide +kernel

section Rounded

/-- In units the number nearest to a ratio is off by at most one part in `2 ^ 53` of it. -/
theorem nearest_relative (hden : 0 < den) (h : pow2 52 ≤ num / den) :
    pow2 53 * (nearest num den * den) ≤ pow2 53 * num + num ∧
      pow2 53 * num ≤ pow2 53 * (nearest num den * den) + num := by
  have hpos : 0 < num / den := (pow2_pos 52).trans_le h
  have hlog : 52 ≤ (num / den).log2 := (Nat.le_log2 hpos.ne').2 h
  have hspacing : pow2 52 * (den * spacing (num / den)) ≤ num := by
    calc pow2 52 * (den * spacing (num / den)) = den * (pow2 52 * spacing (num / den)) :=
          Nat.mul_left_comm _ _ _
      _ = den * pow2 (num / den).log2 := by
          rw [spacing, ← pow2_add, Nat.add_sub_cancel' hlog]
      _ ≤ den * (num / den) := Nat.mul_le_mul_left den (Nat.log2_self_le hpos.ne')
      _ ≤ num := Nat.mul_div_le num den
  have hrounded : 0 < den * spacing (num / den) := Nat.mul_pos hden (pow2_pos _)
  have hle := Nat.mul_le_mul_left (pow2 52) (@roundEven_le num _ hrounded)
  have hge := Nat.mul_le_mul_left (pow2 52) (@le_roundEven num _ hrounded)
  rw [← nearest_mul] at hle hge
  rw [show pow2 53 = 2 * pow2 52 from pow2_succ 52]
  constructor <;> linarith

theorem within_of_nearest_lt (hden : 0 < den) (h : pow2 52 ≤ num / den)
    (hlt : nearest num den < overflow) :
    (ofRatio false num den).Within (num / (den * one)) (num / (den * one) / 2 ^ 53) := by
  obtain ⟨hle, hge⟩ := nearest_relative hden h
  have hpos : (0 : ℚ) < den * one := mul_pos (Nat.cast_pos.2 hden) one_pos_rat
  refine ⟨nearest num den, if_pos hlt, ?_⟩
  have hle' : (2 ^ 53 * (nearest num den * den) : ℚ) ≤ 2 ^ 53 * num + num := by
    rw [← cast_pow2]
    exact_mod_cast hle
  have hge' : (2 ^ 53 * num : ℚ) ≤ 2 ^ 53 * (nearest num den * den) + num := by
    rw [← cast_pow2]
    exact_mod_cast hge
  rw [div_one_sub hden, abs_div, abs_of_pos hpos, div_right_comm]
  refine div_le_div_of_nonneg_right ?_ hpos.le
  rw [abs_le]
  constructor <;> linarith

theorem pow2_le_div (hden : 0 < den) (h : 1 / 2 ≤ (num : ℚ) / (den * one)) :
    pow2 52 ≤ num / den := by
  rw [le_div_iff₀ (mul_pos (Nat.cast_pos.2 hden) one_pos_rat)] at h
  have hnum : den * one ≤ 2 * num := by
    have : (den * one : ℚ) ≤ 2 * num := by linarith
    exact_mod_cast this
  rw [one, show pow2 1074 = 2 * pow2 1073 from pow2_succ 1073] at hnum
  rw [Nat.le_div_iff_mul_le hden, Nat.mul_comm]
  have hpow : den * pow2 52 ≤ den * pow2 1073 := Nat.mul_le_mul_left den (pow2_le_pow2 (by decide))
  have hdouble : den * (2 * pow2 1073) = 2 * (den * pow2 1073) := Nat.mul_left_comm _ _ _
  omega

theorem nearest_lt_of_le (hden : 0 < den) (hlow : 1 / 2 ≤ (num : ℚ) / (den * one))
    (hhigh : (num : ℚ) / (den * one) ≤ 5 / 4 * decimalBound) : nearest num den < overflow := by
  have hle := (nearest_relative hden (pow2_le_div hden hlow)).1
  rw [div_le_iff₀ (mul_pos (Nat.cast_pos.2 hden) one_pos_rat)] at hhigh
  have hnum : 4 * num ≤ 5 * decimalBound * (den * one) := by
    have : (4 * num : ℚ) ≤ 5 * decimalBound * (den * one) := by linarith
    exact_mod_cast this
  have hbound := Nat.mul_le_mul_left den decimalBound_mul_one_le
  have hscaled : 4 * num ≤ 3 * (den * overflow) := by
    calc 4 * num ≤ 5 * decimalBound * (den * one) := hnum
      _ = den * (5 * decimalBound * one) := by ring
      _ ≤ den * (3 * overflow) := hbound
      _ = 3 * (den * overflow) := Nat.mul_left_comm _ _ _
  have hlt : nearest num den * den < overflow * den := by
    rw [Nat.mul_comm overflow]
    have hpow : 8 ≤ pow2 53 := by decide +kernel
    have hpos : 0 < den * overflow := Nat.mul_pos hden (pow2_pos _)
    by_contra hnot
    have hcontra := Nat.mul_le_mul_left (pow2 53) (Nat.le_of_not_lt hnot)
    have hsmall := Nat.mul_le_mul_right num hpow
    have hp := Nat.mul_le_mul_left (pow2 53) hscaled
    have hq := Nat.mul_le_mul_right (den * overflow) hpow
    linarith
  exact lt_of_mul_lt_mul_right hlt (Nat.zero_le den)

/-- Between one half and the largest literals the error is at most one part in `2 ^ 53`. -/
theorem within_ofRatio_of_le (hden : 0 < den) (hvalue : (num : ℚ) / (den * one) = value)
    (hlow : 1 / 2 ≤ value) (hhigh : value ≤ 5 / 4 * decimalBound) :
    (ofRatio false num den).Within value (value / 2 ^ 53) := by
  subst hvalue
  exact within_of_nearest_lt hden (pow2_le_div hden hlow) (nearest_lt_of_le hden hlow hhigh)

/-- Rounding adds little to what a ratio is off already. -/
theorem within_ofRatio_of_close (hden : 0 < den)
    (hclose : |(num : ℚ) / (den * one) - value| ≤ 3 * value / 2 ^ 53) (hlow : 3 / 4 ≤ value)
    (hhigh : value ≤ 9 / 8 * decimalBound) :
    (ofRatio false num den).Within value (value / 2 ^ 50) := by
  obtain ⟨hge, hle⟩ := abs_le.1 hclose
  have hrounded := @within_ofRatio_of_le num den _ hden rfl (by linarith) (by linarith)
  refine (hrounded.of_near hclose).mono ?_
  linarith

end Rounded

section Operations

/-- Whether a number is off from a positive one by at most one part in `2 ^ 53` of it. -/
def Proportional (x : Binary64) (value : ℚ) : Prop := 0 < value ∧ x.Within value (value / 2 ^ 53)

variable {x y : Binary64} {other : ℚ}

theorem whole_div_one (n : ℕ) : ((n * one : ℕ) : ℚ) / ((1 : ℕ) * one) = n := by
  have := one_pos_rat.ne'
  push_cast
  field_simp

theorem proportional_whole (hpos : 0 < n) (h : n ≤ decimalBound) :
    (ofRatio false (n * one) 1).Proportional n := by
  have hlow : (1 : ℚ) ≤ n := by exact_mod_cast hpos
  have hhigh : (n : ℚ) ≤ decimalBound := by exact_mod_cast h
  exact ⟨by linarith, within_ofRatio_of_le Nat.one_pos (whole_div_one n) (by linarith) (by linarith)⟩
section Exact

variable {a b : ℚ}

theorem abs_mul_sub_le (hvalue : 0 < value) (hother : 0 < other)
    (ha : |a - value| ≤ value / 2 ^ 53) (hb : |b - other| ≤ other / 2 ^ 53) :
    |a * b - value * other| ≤ 3 * (value * other) / 2 ^ 53 := by
  have hsplit : a * b - value * other = (a - value) * b + value * (b - other) := by ring
  have hb' : |b| ≤ 2 * other := by
    obtain ⟨hge, hle⟩ := abs_le.1 hb
    rw [abs_le]
    constructor <;> linarith
  calc |a * b - value * other| ≤ |a - value| * |b| + |value| * |b - other| := by
        rw [hsplit, ← abs_mul, ← abs_mul]
        exact abs_add_le _ _
    _ ≤ value / 2 ^ 53 * (2 * other) + value * (other / 2 ^ 53) := by
        rw [abs_of_pos hvalue]
        refine add_le_add (mul_le_mul ha hb' (abs_nonneg b) (by positivity)) ?_
        exact mul_le_mul_of_nonneg_left hb hvalue.le
    _ = 3 * (value * other) / 2 ^ 53 := by ring

theorem abs_div_sub_le (hvalue : 0 < value) (hother : 0 < other)
    (ha : |a - value| ≤ value / 2 ^ 53) (hb : |b - other| ≤ other / 2 ^ 53) :
    |a / b - value / other| ≤ 3 * (value / other) / 2 ^ 53 := by
  have hge : other * (1 - 1 / 2 ^ 53) ≤ b := by
    obtain ⟨hge, -⟩ := abs_le.1 hb
    linarith
  have hpos : 0 < b := lt_of_lt_of_le (by linarith) hge
  have hsplit : a / b - value / other =
      ((a - value) * other - value * (b - other)) / (b * other) := by
    field_simp
    ring
  have hquotient : 0 < value / other := div_pos hvalue hother
  rw [hsplit, abs_div, abs_of_pos (mul_pos hpos hother), div_le_iff₀ (mul_pos hpos hother)]
  calc |(a - value) * other - value * (b - other)|
      ≤ |a - value| * |other| + |value| * |b - other| := by
        rw [← abs_mul, ← abs_mul]
        exact abs_sub _ _
    _ ≤ value / 2 ^ 53 * other + value * (other / 2 ^ 53) := by
        rw [abs_of_pos hvalue, abs_of_pos hother]
        exact add_le_add (mul_le_mul_of_nonneg_right ha hother.le)
          (mul_le_mul_of_nonneg_left hb hvalue.le)
    _ = value / other * (2 / 2 ^ 53) * other * other := by
        field_simp
        ring
    _ ≤ value / other * (3 * (1 - 1 / 2 ^ 53) / 2 ^ 53) * other * other := by
        gcongr
        norm_num
    _ = 3 * (value / other) / 2 ^ 53 * (other * (1 - 1 / 2 ^ 53) * other) := by ring
    _ ≤ 3 * (value / other) / 2 ^ 53 * (b * other) := by gcongr

end Exact

theorem Proportional.mul (hx : x.Proportional value) (hy : y.Proportional other)
    (hlow : 3 / 4 ≤ value * other) (hhigh : value * other ≤ 9 / 8 * decimalBound) :
    (x.mul y).Within (value * other) (value * other / 2 ^ 50) := by
  obtain ⟨hvalue, units, rfl, hunits⟩ := hx
  obtain ⟨hother, more, rfl, hmore⟩ := hy
  have hexact : ((units * more : ℕ) : ℚ) / (one * one) = units / one * (more / one) := by
    have := one_pos_rat.ne'
    push_cast
    field_simp
  rw [Binary64.mul, bne_self_eq_false]
  refine within_ofRatio_of_close one_pos ?_ hlow hhigh
  rw [hexact]
  exact abs_mul_sub_le hvalue hother hunits hmore

theorem Proportional.div (hx : x.Proportional value) (hy : y.Proportional other)
    (hlow : 3 / 4 ≤ value / other) (hhigh : value / other ≤ 9 / 8 * decimalBound) :
    (x.div y).Within (value / other) (value / other / 2 ^ 50) := by
  obtain ⟨hvalue, units, rfl, hunits⟩ := hx
  obtain ⟨hother, more, rfl, hmore⟩ := hy
  have hpos : 0 < more := by
    rcases Nat.eq_zero_or_pos more with rfl | hpos
    · obtain ⟨hge, -⟩ := abs_le.1 hmore
      rw [Nat.cast_zero, zero_div] at hge
      linarith
    · exact hpos
  have hexact : ((units * one : ℕ) : ℚ) / (more * one) = units / one / (more / one) := by
    have := one_pos_rat.ne'
    have : (more : ℚ) ≠ 0 := Nat.cast_ne_zero.2 hpos.ne'
    push_cast
    field_simp
  rw [Binary64.div, if_neg hpos.ne', bne_self_eq_false]
  refine within_ofRatio_of_close hpos ?_ hlow hhigh
  rw [hexact]
  exact abs_div_sub_le hvalue hother hunits hmore

end Operations

section Whole

variable {x : Binary64} {bound : ℕ}

theorem clampNat_whole (n bound : ℕ) :
    (finite false (n * one)).round.clampNat 0 bound = min n bound := by
  rw [round_whole, clampNat, Nat.mul_div_cancel _ one_pos, Nat.zero_max, Nat.min_comm]
  rfl

/-- A number that is off by little from a whole one is rounded to that one, or to one that is beyond
the bound as well. -/
theorem clampNat_round_of_within (h : x.Within n (n / 2 ^ 49)) (hbound : bound ≤ 2 ^ 32) :
    x.round.clampNat 0 bound = min n bound := by
  obtain ⟨nearby, hround, hnear⟩ := h.round
  rw [hround, ← round_whole, clampNat_whole]
  rcases le_or_gt n (2 ^ 40) with hsmall | hlarge
  · have hn : (n : ℚ) ≤ 2 ^ 40 := by exact_mod_cast hsmall
    rw [eq_of_abs_sub_lt (m := nearby) (n := n) (by linarith)]
  · have hn : (2 ^ 40 : ℚ) < n := by exact_mod_cast hlarge
    have hle := (abs_le.1 hnear).1
    have hnearby : 2 ^ 32 ≤ nearby := by
      have : (2 ^ 32 : ℚ) ≤ nearby := by linarith
      exact_mod_cast this
    omega

/-- A whole number of any size is held between bounds as if it were held exactly. -/
theorem clampNat_round_ofRatio (n : ℕ) (hbound : bound ≤ 2 ^ 32) :
    (ofRatio false (n * one) 1).round.clampNat 0 bound = min n bound := by
  rcases lt_or_ge n exactBound with hexact | hlarge
  · rw [ofRatio_mul_one false hexact, clampNat_whole]
  · have hquotient : pow2 52 ≤ n * one / 1 := by
      rw [Nat.div_one]
      exact Nat.le_mul_of_pos_right _ one_pos |>.trans' ((pow2_le_pow2 (by decide)).trans hlarge)
    by_cases hlt : nearest (n * one) 1 < overflow
    · have hwithin := within_of_nearest_lt Nat.one_pos hquotient hlt
      rw [whole_div_one] at hwithin
      have hn : (0 : ℚ) ≤ n := Nat.cast_nonneg n
      exact clampNat_round_of_within (hwithin.mono (by linarith)) hbound
    · have hbelow : 2 ^ 32 ≤ exactBound := by decide
      rw [ofRatio, if_neg hlt, round, clampNat, if_neg Bool.false_ne_true]
      omega

theorem Within.clampNat_round_neg {margin : ℚ} (h : x.Within value margin) (bound : ℕ) :
    x.neg.round.clampNat 0 bound = 0 := by
  obtain ⟨units, rfl, -⟩ := h
  rfl

section Signed

variable {negative : Bool} {i : ℤ}

/-- A number with a sign is held between zero and a bound as the integer that it is close to. -/
theorem Within.clampNat_signed (h : x.Within i.natAbs (i.natAbs / 2 ^ 49))
    (hsign : if negative then i ≤ 0 else 0 ≤ i) (hbound : bound ≤ 2 ^ 32) :
    ((if negative then x.neg else x).round.clampNat 0 bound : ℤ) = min (max i 0) bound := by
  split_ifs at hsign ⊢
  · rw [h.clampNat_round_neg]
    omega
  · rw [clampNat_round_of_within h hbound]
    omega

theorem clampNat_round_ofRatio_signed
    (hsign : if negative then i ≤ 0 else 0 ≤ i) (hbound : bound ≤ 2 ^ 32) :
    ((ofRatio negative (i.natAbs * one) 1).round.clampNat 0 bound : ℤ) = min (max i 0) bound := by
  split_ifs at hsign with hneg
  · rw [hneg, clampNat_round_negative]
    omega
  · rw [Bool.eq_false_iff.2 hneg, clampNat_round_ofRatio _ hbound]
    omega

theorem clampNat_round_ofInt_of_le (i : ℤ) (hbound : bound ≤ 2 ^ 32) :
    ((ofInt i).round.clampNat 0 bound : ℤ) = min (max i 0) bound :=
  clampNat_round_ofRatio_signed (by split_ifs with h <;> simp at h <;> omega) hbound

end Signed

end Whole

end Appraisal.Binary64
