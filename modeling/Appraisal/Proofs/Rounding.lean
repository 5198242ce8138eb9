import Appraisal.Proofs.WholeNumber
import Mathlib.Algebra.Order.Field.Rat
import Mathlib.Tactic.FieldSimp
import Mathlib.Tactic.Linarith
import Mathlib.Tactic.Positivity

/-!
# How far arithmetic in binary64 is off

The number nearest to a ratio below `2 ^ bits` is off by at most half of the spacing there
(`within_ofRatio`). An operation with a whole number adds that much to what the error of its operand
becomes under the exact operation.
-/

namespace Appraisal.Binary64

/-- Half the spacing of the numbers below a power of two. -/
def halfSpacing (bits : ℕ) : ℚ := 2 ^ bits / 2 ^ 54

/-- Whether a number is finite, not negative, and off from a rational number by at most a margin. -/
def Within (x : Binary64) (value margin : ℚ) : Prop :=
  ∃ units : ℕ, x = .finite false units ∧ |(units : ℚ) / one - value| ≤ margin

variable {x : Binary64} {value margin : ℚ} {n bits : ℕ}

theorem cast_pow2 (n : ℕ) : ((pow2 n : ℕ) : ℚ) = 2 ^ n := Nat.cast_pow 2 n

theorem one_pos_rat : (0 : ℚ) < one := Nat.cast_pos.2 one_pos

theorem Within.of_near {other gap : ℚ} (h : x.Within value margin) (hgap : |value - other| ≤ gap) :
    x.Within other (margin + gap) := by
  obtain ⟨units, hx, hunits⟩ := h
  refine ⟨units, hx, ?_⟩
  calc |(units : ℚ) / one - other|
      ≤ |(units : ℚ) / one - value| + |value - other| := abs_sub_le _ _ _
    _ ≤ margin + gap := add_le_add hunits hgap

theorem Within.mono {wider : ℚ} (h : x.Within value margin) (hle : margin ≤ wider) :
    x.Within value wider := by
  obtain ⟨units, hx, hunits⟩ := h
  exact ⟨units, hx, hunits.trans hle⟩

theorem Within.gap_le {other gap : ℚ} (h : x.Within value margin) (h' : x.Within other gap) :
    |value - other| ≤ margin + gap := by
  obtain ⟨units, rfl, hunits⟩ := h
  obtain ⟨_, ⟨⟩, hunits'⟩ := h'
  rw [abs_sub_comm] at hunits
  exact (abs_sub_le _ _ _).trans (add_le_add hunits hunits')

/-- Whole numbers that are less than one apart are the same. -/
theorem eq_of_abs_sub_lt {m n : ℕ} (h : |(m : ℚ) - n| < 1) : m = n := by
  have hlt : |(m - n : ℤ)| < 1 := by exact_mod_cast h
  have := Int.abs_lt_one_iff.1 hlt
  omega

section Ratio

variable {num den : ℕ}

theorem spacing_le (hbits : 53 ≤ bits) (h : num < den * pow2 bits) :
    spacing (num / den) ≤ pow2 (bits - 53) := by
  have hquotient : num / den < pow2 bits := Nat.div_lt_of_lt_mul h
  refine pow2_le_pow2 ?_
  rcases Nat.eq_zero_or_pos (num / den) with hz | hpos
  · rw [hz, Nat.log2_zero]
    exact Nat.zero_le _
  · have := (Nat.log2_lt hpos.ne').2 hquotient
    omega

theorem nearest_mul (num den : ℕ) : nearest num den * den =
    roundEven num (den * spacing (num / den)) * (den * spacing (num / den)) := by
  rw [nearest, Nat.mul_assoc, Nat.mul_comm (spacing _) den]

/-- In units the nearest number is off by at most half of the spacing. -/
theorem nearest_close (hden : 0 < den) (hbits : 53 ≤ bits) (h : num < den * pow2 bits) :
    2 * (nearest num den * den) ≤ 2 * num + den * pow2 (bits - 53) ∧
      2 * num ≤ 2 * (nearest num den * den) + den * pow2 (bits - 53) := by
  have hspacing := Nat.mul_le_mul_left den (spacing_le hbits h)
  have hpos : 0 < den * spacing (num / den) := Nat.mul_pos hden (pow2_pos _)
  have hle := @roundEven_le num _ hpos
  have hge := @le_roundEven num _ hpos
  rw [nearest_mul]
  omega

theorem nearest_lt_overflow (hden : 0 < den) (hbits : 53 ≤ bits) (hmax : bits < 2098)
    (h : num < den * pow2 bits) : nearest num den < overflow := by
  have hle := (nearest_close hden hbits h).1
  have hspacing : den * pow2 (bits - 53) ≤ den * pow2 bits :=
    Nat.mul_le_mul_left den (pow2_le_pow2 (Nat.sub_le _ _))
  have hoverflow : den * (2 * pow2 bits) ≤ den * overflow := by
    refine Nat.mul_le_mul_left den ?_
    rw [Nat.mul_comm, show pow2 bits * 2 = pow2 (bits + 1) from (pow2_add bits 1).symm]
    exact pow2_le_pow2 hmax
  have hlt : nearest num den * den < overflow * den := by
    rw [Nat.mul_comm overflow]
    have : den * (2 * pow2 bits) = 2 * (den * pow2 bits) := Nat.mul_left_comm _ _ _
    omega
  exact lt_of_mul_lt_mul_right hlt (Nat.zero_le den)

/-- Half the spacing in units. -/
theorem pow2_sub_eq_halfSpacing (bits : ℕ) :
    ((pow2 (bits + 1074 - 53) : ℕ) : ℚ) = 2 * (halfSpacing bits * one) := by
  have hsplit : pow2 (bits + 1074 - 53) * pow2 53 = pow2 bits * one := by
    rw [one, ← pow2_add, ← pow2_add]
    rfl
  have hcast := congrArg (Nat.cast (R := ℚ)) hsplit
  rw [Nat.cast_mul, Nat.cast_mul, cast_pow2 53, cast_pow2 bits] at hcast
  rw [halfSpacing]
  linarith

theorem div_one_sub (hden : 0 < den) (units num : ℕ) :
    (units : ℚ) / one - num / (den * one) = (units * den - num) / (den * one) := by
  have := one_pos_rat.ne'
  have : (den : ℚ) ≠ 0 := Nat.cast_ne_zero.2 hden.ne'
  field_simp

theorem within_ofRatio (hden : 0 < den) (hbits : bits ≤ 1000)
    (h : (num : ℚ) / (den * one) < 2 ^ bits) :
    (ofRatio false num den).Within (num / (den * one)) (halfSpacing bits) := by
  have hpos : (0 : ℚ) < den * one := mul_pos (Nat.cast_pos.2 hden) one_pos_rat
  have hnum : num < den * pow2 (bits + 1074) := by
    rw [div_lt_iff₀ hpos, ← cast_pow2, ← Nat.cast_mul, ← Nat.cast_mul, Nat.cast_lt] at h
    rw [pow2_add, ← one]
    exact h.trans_eq (Nat.mul_left_comm _ _ _)
  obtain ⟨hle, hge⟩ := nearest_close hden (by omega) hnum
  refine ⟨nearest num den, if_pos (nearest_lt_overflow hden (by omega) (by omega) hnum), ?_⟩
  have hle' : (2 * (nearest num den * den) : ℚ) ≤
      2 * num + den * (2 * (halfSpacing bits * one)) := by
    rw [← pow2_sub_eq_halfSpacing]
    exact_mod_cast hle
  have hge' : (2 * num : ℚ) ≤
      2 * (nearest num den * den) + den * (2 * (halfSpacing bits * one)) := by
    rw [← pow2_sub_eq_halfSpacing]
    exact_mod_cast hge
  rw [div_one_sub hden, abs_div, abs_of_pos hpos, div_le_iff₀ hpos, abs_le]
  constructor <;> linarith

theorem div_le_roundEven (num den : ℕ) : num / den ≤ roundEven num den := by
  simp only [roundEven]
  split_ifs <;> omega

/-- Rounding does not pass a count of units that is a multiple of the spacing. -/
theorem le_nearest {units : ℕ} (hden : 0 < den) (hdvd : spacing (num / den) ∣ units)
    (h : units * den ≤ num) : units ≤ nearest num den := by
  obtain ⟨k, rfl⟩ := hdvd
  have hpos : 0 < den * spacing (num / den) := Nat.mul_pos hden (pow2_pos _)
  have hk : k ≤ num / (den * spacing (num / den)) := by
    rw [Nat.le_div_iff_mul_le hpos, Nat.mul_comm den, ← Nat.mul_assoc, Nat.mul_comm k]
    exact h
  rw [nearest, Nat.mul_comm (spacing _) k]
  exact Nat.mul_le_mul_right _ (hk.trans (div_le_roundEven _ _))

theorem roundEven_le_of_le_mul {k : ℕ} (hden : 0 < den) (h : num ≤ k * den) :
    roundEven num den ≤ k := by
  have hquotient : num / den ≤ k := Nat.div_le_of_le_mul (h.trans_eq (Nat.mul_comm k den))
  rcases hquotient.lt_or_eq with hlt | heq
  · simp only [roundEven]
    split_ifs <;> omega
  · -- the quotient is the bound, so that nothing is left to be rounded up
    have hsplit := Nat.div_add_mod num den
    rw [heq, Nat.mul_comm] at hsplit
    have hrest : num % den = 0 := by omega
    rw [roundEven, hrest, if_pos (by omega)]
    exact hquotient

theorem nearest_le {units : ℕ} (hden : 0 < den) (hdvd : spacing (num / den) ∣ units)
    (h : num ≤ units * den) : nearest num den ≤ units := by
  obtain ⟨k, rfl⟩ := hdvd
  have hpos : 0 < den * spacing (num / den) := Nat.mul_pos hden (pow2_pos _)
  have hk : num ≤ k * (den * spacing (num / den)) := by
    rwa [Nat.mul_comm den, ← Nat.mul_assoc, Nat.mul_comm k]
  rw [nearest, Nat.mul_comm (spacing _) k]
  exact Nat.mul_le_mul_right _ (roundEven_le_of_le_mul hpos hk)

theorem Within.eq_nearest {negative : Bool} (h : x.Within value margin)
    (hx : x = ofRatio negative num den) : x = .finite false (nearest num den) := by
  obtain ⟨units, hunits, -⟩ := h
  rw [hx, ofRatio] at hunits ⊢
  split_ifs at hunits ⊢
  cases hunits
  rfl

end Ratio

section Whole

theorem ofNat_of_lt (h : n < exactBound) : ofNat n = .finite false (n * one) :=
  ofRatio_mul_one false h

theorem within_ofNat (h : n < exactBound) : (ofNat n).Within n 0 := by
  have hone := one_pos_rat.ne'
  refine ⟨n * one, ofNat_of_lt h, ?_⟩
  rw [Nat.cast_mul, mul_div_cancel_right₀ _ hone, sub_self, abs_zero]

theorem ofInt_natCast (n : ℕ) : ofInt n = ofNat n := by
  have hsign : decide ((n : ℤ) < 0) = false := by simp
  rw [ofInt, ofNat, Int.natAbs_natCast, hsign]

theorem Within.mul_whole (h : x.Within value margin) (hn : n < exactBound) (hbits : bits ≤ 1000)
    (hlt : (value + margin) * n < 2 ^ bits) :
    (x.mul (ofNat n)).Within (value * n) (margin * n + halfSpacing bits) := by
  obtain ⟨units, rfl, hunits⟩ := h
  have hone := one_pos_rat.ne'
  have hn' : (0 : ℚ) ≤ n := Nat.cast_nonneg n
  have hexact : ((units * (n * one) : ℕ) : ℚ) / (one * one) = units / one * n := by
    push_cast
    field_simp
  have hmul : (finite false units).mul (ofNat n) = ofRatio false (units * (n * one)) one := by
    rw [ofNat_of_lt hn, mul, bne_self_eq_false]
  have hrounded := @within_ofRatio bits (units * (n * one)) one one_pos hbits <| by
    rw [hexact]
    refine lt_of_le_of_lt (mul_le_mul_of_nonneg_right ?_ hn') hlt
    linarith [(abs_le.1 hunits).2]
  rw [hmul, add_comm]
  rw [hexact] at hrounded
  refine hrounded.of_near ?_
  rw [← sub_mul, abs_mul, abs_of_nonneg hn']
  exact mul_le_mul_of_nonneg_right hunits hn'

theorem Within.add_whole (h : x.Within value margin) (hn : n < exactBound) (hbits : bits ≤ 1000)
    (hlt : value + margin + n < 2 ^ bits) :
    (x.add (ofNat n)).Within (value + n) (margin + halfSpacing bits) := by
  obtain ⟨units, rfl, hunits⟩ := h
  have hone := one_pos_rat.ne'
  have hexact : ((units + n * one : ℕ) : ℚ) / ((1 : ℕ) * one) = units / one + n := by
    rw [Nat.cast_one, one_mul, Nat.cast_add, Nat.cast_mul, add_div, mul_div_cancel_right₀ _ hone]
  have hadd : (finite false units).add (ofNat n) = ofRatio false (units + n * one) 1 := by
    rw [ofNat_of_lt hn, add, if_pos rfl]
  have hrounded := @within_ofRatio bits (units + n * one) 1 Nat.one_pos hbits <| by
    rw [hexact]
    linarith [(abs_le.1 hunits).2]
  rw [hadd, add_comm margin]
  rw [hexact] at hrounded
  refine hrounded.of_near ?_
  rw [add_sub_add_right_eq_sub]
  exact hunits

theorem Within.div_whole (h : x.Within value margin) (hpos : 0 < n) (hn : n < exactBound)
    (hbits : bits ≤ 1000) (hlt : (value + margin) / n < 2 ^ bits) :
    (x.div (ofNat n)).Within (value / n) (margin / n + halfSpacing bits) := by
  obtain ⟨units, rfl, hunits⟩ := h
  have hone := one_pos_rat.ne'
  have hn' : (0 : ℚ) < n := Nat.cast_pos.2 hpos
  have hexact : ((units * one : ℕ) : ℚ) / ((n * one : ℕ) * one) = units / one / n := by
    push_cast
    field_simp
  have hden : 0 < n * one := Nat.mul_pos hpos one_pos
  have hdiv : (finite false units).div (ofNat n) = ofRatio false (units * one) (n * one) := by
    rw [ofNat_of_lt hn, div, if_neg hden.ne', bne_self_eq_false]
  have hrounded := @within_ofRatio bits (units * one) (n * one) hden hbits <| by
    rw [hexact]
    refine lt_of_le_of_lt (div_le_div_of_nonneg_right ?_ hn'.le) hlt
    linarith [(abs_le.1 hunits).2]
  rw [hdiv, add_comm]
  rw [hexact] at hrounded
  refine hrounded.of_near ?_
  rw [← sub_div, abs_div, abs_of_pos hn']
  exact div_le_div_of_nonneg_right hunits hn'.le

/-- The integer that a number is rounded to is off by at most half. -/
theorem Within.round (h : x.Within value margin) :
    ∃ n : ℕ, x.round = .finite false (n * one) ∧ |(n : ℚ) - value| ≤ 1 / 2 + margin := by
  obtain ⟨units, rfl, hunits⟩ := h
  refine ⟨(2 * units + one) / (2 * one), rfl, ?_⟩
  have hone := one_pos
  have hle := Nat.div_mul_le_self (2 * units + one) (2 * one)
  have hgt := @Nat.lt_div_mul_add (2 * units + one) (2 * one) (by omega)
  generalize (2 * units + one) / (2 * one) = n at hle hgt ⊢
  have hone' := one_pos_rat
  have hnear : |(n : ℚ) - units / one| ≤ 1 / 2 := by
    have hle' : (n : ℚ) * (2 * one) ≤ 2 * units + one := by exact_mod_cast hle
    have hgt' : (2 * units + one : ℚ) < n * (2 * one) + 2 * one := by exact_mod_cast hgt
    rw [abs_sub_le_iff, sub_le_comm, le_div_iff₀ hone', sub_le_iff_le_add, div_le_iff₀ hone']
    constructor <;> linarith
  calc |(n : ℚ) - value|
      ≤ |(n : ℚ) - units / one| + |(units : ℚ) / one - value| := abs_sub_le _ _ _
    _ ≤ 1 / 2 + margin := add_le_add hnear hunits

end Whole

end Appraisal.Binary64
