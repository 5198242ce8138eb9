import Appraisal.Binary64.Basic

/-!
# Whole numbers in binary64

A whole number below `2 ^ 53` is held exactly (`ofInt_of_natAbs_lt`), since the numbers of its size
are spaced by a fraction of one. Rounding then leaves it as it is, so that holding it between two
bounds is what it is for natural numbers (`clampNat_round_ofInt`).
-/

namespace Appraisal.Binary64

/-- The whole numbers up to this one are all held exactly. -/
def exactBound : Nat := pow2 53

section Powers

theorem pow2_pos (n : Nat) : 0 < pow2 n := Nat.pow_pos (by decide)

theorem pow2_add (m n : Nat) : pow2 (m + n) = pow2 m * pow2 n := Nat.pow_add 2 m n

theorem pow2_succ (n : Nat) : pow2 (n + 1) = 2 * pow2 n := Nat.pow_succ'

theorem pow2_dvd_pow2 {m n : Nat} (h : m ≤ n) : pow2 m ∣ pow2 n := Nat.pow_dvd_pow 2 h

theorem pow2_le_pow2 {m n : Nat} (h : m ≤ n) : pow2 m ≤ pow2 n :=
  Nat.le_of_dvd (pow2_pos n) (pow2_dvd_pow2 h)

theorem one_pos : 0 < one := pow2_pos 1074

end Powers

section Exact

variable {n bits : Nat}

theorem mul_one_lt (h : n < pow2 bits) : n * one < pow2 (bits + 1074) := by
  rw [pow2_add, ← one]
  exact Nat.mul_lt_mul_of_pos_right h one_pos

/-- Below `2 ^ 53` the spacing is a fraction of one. -/
theorem spacing_dvd_one_of_lt {units : Nat} (h : units < pow2 (bits + 1074)) (hbits : bits ≤ 53) :
    spacing units ∣ one := by
  have hlog : units.log2 ≤ bits + 1074 - 1 := by
    rcases Nat.eq_zero_or_pos units with rfl | hp
    · rw [Nat.log2_zero]
      exact Nat.zero_le _
    · have := (Nat.log2_lt (Nat.ne_of_gt hp)).2 h
      omega
  exact pow2_dvd_pow2 (by omega)

/-- With at most 53 binary digits the spacing is a fraction of one. -/
theorem spacing_dvd_one (h : n < pow2 bits) (hbits : bits ≤ 53) : spacing (n * one) ∣ one :=
  spacing_dvd_one_of_lt (mul_one_lt h) hbits

/-- A number of units that is a multiple of its own spacing is its own nearest number. -/
theorem nearest_of_dvd {units : Nat} (h : spacing units ∣ units) : nearest units 1 = units := by
  obtain ⟨k, hk⟩ := h
  have hround : roundEven units (spacing units) = k := by
    have hpos : 0 < spacing units := pow2_pos _
    calc roundEven units (spacing units)
        = roundEven (k * spacing units) (spacing units) := by rw [Nat.mul_comm k, ← hk]
      _ = k := roundEven_mul_self k hpos
  rw [nearest, Nat.div_one, Nat.one_mul, hround, Nat.mul_comm, ← hk]

theorem ofRatio_mul_one (negative : Bool) (h : n < exactBound) :
    ofRatio negative (n * one) 1 = .finite negative (n * one) := by
  have hdvd : spacing (n * one) ∣ n * one :=
    Nat.dvd_mul_left_of_dvd (spacing_dvd_one h (Nat.le_refl _)) n
  have hlt : n * one < overflow := Nat.lt_of_lt_of_le (mul_one_lt h) (pow2_le_pow2 (by omega))
  rw [ofRatio, nearest_of_dvd hdvd, if_pos hlt]

theorem ofInt_of_natAbs_lt {i : Int} (h : i.natAbs < exactBound) :
    ofInt i = .finite (decide (i < 0)) (i.natAbs * one) :=
  ofRatio_mul_one _ h

end Exact

/-- A whole number is its own nearest integer. -/
theorem round_whole (negative : Bool) (n : Nat) :
    (finite negative (n * one)).round = .finite negative (n * one) := by
  have hpos := one_pos
  have h : (2 * (n * one) + one) / (2 * one) = n := by
    rw [Nat.div_eq_iff (by omega), Nat.mul_left_comm n 2 one]
    omega
  rw [round, h]

/-- Below zero nothing but the lower bound is left. -/
theorem clampNat_round_negative (num den low high : Nat) :
    (ofRatio true num den).round.clampNat low high = low := by
  rw [ofRatio]
  split <;> rfl

end Appraisal.Binary64
