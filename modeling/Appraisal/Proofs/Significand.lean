import Appraisal.Proofs.Numeral
import Appraisal.Proofs.Proportion

/-!
# Numbers read from literals

A literal that is no plain integer is read with the digits that fit in 64 bits and a power of ten.
The digits left out are at most one part in `10 ^ 18` of the number (`kept_close`), and each step of
the scaling adds little to that, so that a literal of a whole number below the range of the format
is read as a number that is off from it by at most one part in `2 ^ 49` (`exists_magnitude`). Held
between bounds of 32 bits it is the whole number again (`exists_value`).
-/

namespace Appraisal

namespace Text

theorem code_of_isDigit {c : Char} (h : c.isDigit = true) : 48 ≤ c.toNat ∧ c.toNat ≤ 57 := by
  rw [Char.isDigit, Bool.and_eq_true, decide_eq_true_eq, decide_eq_true_eq] at h
  exact ⟨UInt32.le_iff_toNat_le.1 h.1, UInt32.le_iff_toNat_le.1 h.2⟩

/-- Digits after a number leave it open up to one more in its last place. -/
theorem digitsFrom_bounds : ∀ {digits : List Char} (value : ℕ), digits.all Char.isDigit = true →
    value * 10 ^ digits.length ≤ digitsFrom value digits ∧
      digitsFrom value digits < (value + 1) * 10 ^ digits.length
  | [], value, _ => by simp [digitsFrom]
  | d :: digits, value, h => by
    rw [List.all_cons, Bool.and_eq_true] at h
    have hd := (code_of_isDigit h.1).2
    obtain ⟨hle, hlt⟩ := digitsFrom_bounds (value * 10 + (d.toNat - 48)) h.2
    have hnext : digitsFrom value (d :: digits) =
        digitsFrom (value * 10 + (d.toNat - 48)) digits := rfl
    rw [hnext, List.length_cons, pow_succ']
    constructor
    · refine le_trans ?_ hle
      rw [← mul_assoc]
      exact Nat.mul_le_mul_right _ (Nat.le_add_right _ _)
    · refine lt_of_lt_of_le hlt ?_
      rw [← mul_assoc]
      exact Nat.mul_le_mul_right _ (by omega)

end Text

namespace Json

section Kept

/-- The digits kept are those at the head, and there are many of them if any is left out. -/
theorem exists_keepDigits : ∀ (digits : List Char) (value : ℕ), digits.all Char.isDigit = true →
    ∃ front back, digits = front ++ back ∧
      keepDigits value digits = (Text.digitsFrom value front, back.length) ∧
      (value < 2 ^ 64 → Text.digitsFrom value front < 2 ^ 64) ∧
      (back ≠ [] → 10 ^ 18 ≤ Text.digitsFrom value front)
  | [], value, _ => ⟨[], [], rfl, rfl, id, fun h => absurd rfl h⟩
  | d :: digits, value, h => by
    rw [List.all_cons, Bool.and_eq_true] at h
    rw [keepDigits]
    split_ifs with hfits
    · obtain ⟨front, back, rfl, hkept, hlt, hmany⟩ :=
        exists_keepDigits digits (Text.digitsFrom value [d]) h.2
      exact ⟨d :: front, back, rfl, hkept, fun _ => hlt hfits, hmany⟩
    · refine ⟨[], d :: digits, rfl, rfl, id, fun _ => ?_⟩
      have hd := (Text.code_of_isDigit h.1).2
      have hnext : Text.digitsFrom value [d] = value * 10 + (d.toNat - 48) := rfl
      show 10 ^ 18 ≤ value
      omega

/-- Two numbers that start with the same many digits differ by little. -/
theorem close_of_between {head place a b : ℕ} (hmany : 10 ^ 18 ≤ head)
    (ha : head * place ≤ a ∧ a < (head + 1) * place)
    (hb : head * place ≤ b ∧ b < (head + 1) * place) : |(a : ℤ) - b| * 10 ^ 18 ≤ b := by
  have hplace := Nat.mul_le_mul_right place hmany
  rw [Nat.add_mul, Nat.one_mul] at ha hb
  have hdiff : |(a : ℤ) - b| ≤ place := abs_le.2 ⟨by omega, by omega⟩
  omega

/-- After many digits the ones that follow may be replaced by others, and the last ones by zeros. -/
theorem close_of_many {head shift : ℕ} {front digits : List Char} (hmany : 10 ^ 18 ≤ head)
    (hf : front.all Char.isDigit = true) (hd : digits.all Char.isDigit = true)
    (hlength : digits.length = front.length + shift) :
    |((Text.digitsFrom head front * 10 ^ shift : ℕ) : ℤ) - Text.digitsFrom head digits| * 10 ^ 18 ≤
      Text.digitsFrom head digits := by
  obtain ⟨hge, hlt⟩ := Text.digitsFrom_bounds head hf
  have hbounds := Text.digitsFrom_bounds head hd
  have hpos : 0 < 10 ^ shift := by positivity
  rw [hlength, pow_add] at hbounds
  refine close_of_between hmany ?_ hbounds
  rw [← Nat.mul_assoc, ← Nat.mul_assoc]
  exact ⟨Nat.mul_le_mul_right _ hge, Nat.mul_lt_mul_of_pos_right hlt hpos⟩

namespace Literal

variable {literal : Literal}

/-- The exponent that a literal is written with. -/
def scale (literal : Literal) : ℤ :=
  match literal.exponent with
  | none => 0
  | some (negative, digits) => if negative then -Text.ofDigits digits else Text.ofDigits digits

/-- The rational number that a literal denotes, its sign aside. -/
def magnitude (literal : Literal) : ℚ :=
  Text.ofDigits (literal.whole ++ literal.fraction) *
    10 ^ (literal.scale - literal.fraction.length)

/-- The rational number that a literal denotes. -/
def rational (literal : Literal) : ℚ :=
  if literal.negative then -literal.magnitude else literal.magnitude

/-- The digits of a literal that are kept, as a number, and the power of ten that they need. -/
def kept (literal : Literal) : ℕ × ℤ :=
  let (head, dropped) := keepDigits 0 literal.whole
  let (significand, left) := keepDigits head literal.fraction
  (significand, (dropped : ℤ) - (literal.fraction.length - left : ℕ))

theorem magnitude?_eq (literal : Literal) :
    literal.magnitude? = scaled literal.kept.1 (literal.kept.2 + literal.scale) := by
  obtain ⟨negative, whole, fraction, exponent⟩ := literal
  rcases exponent with _ | ⟨_ | _, digits⟩
  · show scaled _ _ = scaled _ (_ + 0)
    rw [Int.add_zero]
    rfl
  · rfl
  · rfl

/-- What is left out of the digits of a literal is at most one part in `10 ^ 18` of them. -/
theorem kept_close (h : literal.WellFormed) : literal.kept.1 < 2 ^ 64 ∧
    ∃ shift : ℕ, literal.kept.2 = (shift : ℤ) - literal.fraction.length ∧
      |((literal.kept.1 * 10 ^ shift : ℕ) : ℤ) -
        Text.ofDigits (literal.whole ++ literal.fraction)| * 10 ^ 18 ≤
          Text.ofDigits (literal.whole ++ literal.fraction) := by
  obtain ⟨front, back, hwhole, hkept, hlt, hmany⟩ :=
    exists_keepDigits literal.whole 0 h.whole_isDigit
  obtain ⟨front', back', hfraction, hkept', hlt', hmany'⟩ :=
    exists_keepDigits literal.fraction (Text.digitsFrom 0 front) h.fraction_isDigit
  have hw := h.whole_isDigit
  have hf := h.fraction_isDigit
  have hpair : literal.kept = (Text.digitsFrom (Text.digitsFrom 0 front) front',
      (back.length : ℤ) - (literal.fraction.length - back'.length : ℕ)) := by
    simp only [kept, hkept, hkept']
  rw [hwhole, List.all_append, Bool.and_eq_true] at hw
  rw [hfraction, List.all_append, Bool.and_eq_true] at hf
  have hdigits : Text.ofDigits (literal.whole ++ literal.fraction) =
      Text.digitsFrom (Text.digitsFrom 0 front) (back ++ (front' ++ back')) := by
    rw [hwhole, hfraction, List.append_assoc, Text.ofDigits, Text.digitsFrom_append]
  rw [hpair, hdigits]
  generalize Text.digitsFrom 0 front = head at *
  refine ⟨hlt' (hlt (by decide)), back.length + back'.length, ?_, ?_⟩
  · rw [hfraction, List.length_append]
    push_cast
    omega
  · -- the first digit left out is after the point, or it is before it and ends the digits there
    by_cases hback : back = []
    · subst hback
      by_cases hback' : back' = []
      · subst hback'
        simp
      · rw [List.nil_append, List.length_nil, Nat.zero_add, Text.digitsFrom_append]
        exact @close_of_many _ _ [] _ (hmany' hback') rfl hf.2 (Nat.zero_add _).symm
    · refine close_of_many (hmany hback) hf.1 ?_ ?_
      · rw [List.all_append, List.all_append, hw.2, hf.1, hf.2]
        rfl
      · rw [List.length_append, List.length_append]
        omega

end Literal

end Kept

section Scaled

open Binary64

variable {significand n : ℕ} {exponent : ℤ}

theorem proportional_powerOfTen {k : ℕ} (hk : k ≤ 308) :
    (powerOfTen k).Proportional (10 ^ k) := by
  have hratio : powerOfTen k = ofRatio false (10 ^ k * one) 1 := by
    rw [powerOfTen, ofDecimal, if_neg one_ne_zero, if_neg (by omega), if_neg (by omega),
      if_pos (by omega), Int.toNat_natCast, Nat.one_mul]
    rfl
  have hle : 10 ^ k ≤ decimalBound := by
    rw [decimalBound]
    exact pow_le_pow_right₀ (by decide) hk
  have hpow := proportional_whole (by positivity) hle
  rwa [← hratio, Nat.cast_pow, Nat.cast_ofNat] at hpow

/-- A number that is neither small nor beyond the range is scaled by a power of ten within it. -/
theorem exponent_bounds (hlt : significand < 2 ^ 64)
    (hlow : 3 / 4 ≤ (significand : ℚ) * 10 ^ exponent)
    (hhigh : (significand : ℚ) * 10 ^ exponent ≤ 9 / 8 * decimalBound) :
    -308 ≤ exponent ∧ exponent ≤ 308 := by
  have hpow : (0 : ℚ) < 10 ^ exponent := zpow_pos (by norm_num) _
  have hs : (1 : ℚ) ≤ significand := by
    rcases Nat.eq_zero_or_pos significand with rfl | hpos
    · norm_num at hlow
    · exact_mod_cast hpos
  have hs' : (significand : ℚ) ≤ 2 ^ 64 := by exact_mod_cast hlt.le
  constructor
  · by_contra hnot
    have hsmall : (10 : ℚ) ^ exponent ≤ 10 ^ (-21 : ℤ) :=
      zpow_le_zpow_right₀ (by norm_num) (by omega)
    have hle : (significand : ℚ) * 10 ^ exponent ≤ 2 ^ 64 * 10 ^ (-21 : ℤ) :=
      mul_le_mul hs' hsmall hpow.le (by positivity)
    norm_num at hle
    linarith
  · by_contra hnot
    have hbound : (10 : ℚ) ^ (308 + 1 : ℤ) = decimalBound * 10 := by
      rw [zpow_add₀ (by norm_num), zpow_one, decimalBound, Nat.cast_pow]
      rfl
    have hlarge : (10 : ℚ) ^ (308 + 1 : ℤ) ≤ 10 ^ exponent :=
      zpow_le_zpow_right₀ (by norm_num) (by omega)
    have hge : (10 : ℚ) ^ exponent ≤ significand * 10 ^ exponent :=
      le_mul_of_one_le_left hpow.le hs
    have hpos : (0 : ℚ) < decimalBound := by
      rw [decimalBound, Nat.cast_pow]
      positivity
    linarith

theorem exists_scaled_within (hlt : significand < 2 ^ 64)
    (hlow : 3 / 4 ≤ (significand : ℚ) * 10 ^ exponent)
    (hhigh : (significand : ℚ) * 10 ^ exponent ≤ 9 / 8 * decimalBound) :
    ∃ x, scaled significand exponent = some x ∧
      x.Within (significand * 10 ^ exponent) (significand * 10 ^ exponent / 2 ^ 50) := by
  obtain ⟨hmin, hmax⟩ := exponent_bounds hlt hlow hhigh
  have hne : significand ≠ 0 := by
    rintro rfl
    norm_num at hlow
  have hstart : (ofNat significand).Proportional significand :=
    proportional_whole (Nat.pos_of_ne_zero hne) (hlt.le.trans two_pow_64_le_decimalBound)
  rw [scaled, if_neg hne, if_neg (by omega)]
  by_cases hsign : 0 ≤ exponent
  · obtain ⟨k, rfl⟩ := Int.eq_ofNat_of_zero_le hsign
    rw [zpow_natCast] at hlow hhigh ⊢
    have hmul := hstart.mul (proportional_powerOfTen (by omega)) hlow hhigh
    obtain ⟨units, hx, -⟩ := id hmul
    refine ⟨_, ?_, hmul⟩
    rw [if_pos hsign, Int.toNat_natCast, hx]
  · obtain ⟨k, rfl⟩ := Int.exists_eq_neg_ofNat (le_of_not_ge hsign)
    rw [zpow_neg, zpow_natCast, ← div_eq_mul_inv] at hlow hhigh ⊢
    refine ⟨_, ?_, hstart.div (proportional_powerOfTen (by omega)) hlow hhigh⟩
    rw [if_neg hsign, if_pos hmin, Int.neg_neg, Int.toNat_natCast]

/-- A number close to a whole one within the range is not lost when it is scaled. -/
theorem exists_scaled (hlt : significand < 2 ^ 64) (hn : n ≤ decimalBound)
    (hclose : |(significand : ℚ) * 10 ^ exponent - n| ≤ n / 10 ^ 18) :
    ∃ x, scaled significand exponent = some x ∧ x.Within n (n / 2 ^ 49) := by
  rcases Nat.eq_zero_or_pos n with rfl | hpos
  · have hpow : (10 : ℚ) ^ exponent ≠ 0 := zpow_ne_zero _ (by norm_num)
    rw [Nat.cast_zero, zero_div, sub_zero, abs_nonpos_iff, mul_eq_zero] at hclose
    obtain rfl : significand = 0 := Nat.cast_eq_zero.1 (hclose.resolve_right hpow)
    refine ⟨ofNat 0, rfl, (within_ofNat (pow2_pos _)).mono ?_⟩
    rw [Nat.cast_zero, zero_div]
  · obtain ⟨hge, hle⟩ := abs_le.1 hclose
    have hone : (1 : ℚ) ≤ n := by exact_mod_cast hpos
    have hbound : (n : ℚ) ≤ decimalBound := by exact_mod_cast hn
    have hlow : 3 / 4 ≤ (significand : ℚ) * 10 ^ exponent := by linarith
    have hhigh : (significand : ℚ) * 10 ^ exponent ≤ 9 / 8 * decimalBound := by linarith
    obtain ⟨x, hx, hwithin⟩ := exists_scaled_within hlt hlow hhigh
    exact ⟨x, hx, (hwithin.of_near hclose).mono (by linarith)⟩

end Scaled

namespace Literal

open Binary64

variable {literal : Literal} {n bound : ℕ} {i : ℤ}

/-- The literal of a whole number within the range is read as a number close to it. -/
theorem exists_magnitude (h : literal.WellFormed) (hn : n ≤ decimalBound)
    (hvalue : literal.magnitude = n) :
    ∃ x, literal.magnitude? = some x ∧ x.Within n (n / 2 ^ 49) := by
  obtain ⟨hlt, shift, hshift, hclose⟩ := kept_close h
  rw [magnitude?_eq]
  refine exists_scaled hlt hn ?_
  have hplace : (0 : ℚ) < 10 ^ (literal.scale - literal.fraction.length) :=
    zpow_pos (by norm_num) _
  have hsplit : (literal.kept.1 : ℚ) * 10 ^ (literal.kept.2 + literal.scale) - n =
      (literal.kept.1 * 10 ^ shift - Text.ofDigits (literal.whole ++ literal.fraction)) *
        10 ^ (literal.scale - literal.fraction.length) := by
    have hexponent : literal.kept.2 + literal.scale =
        shift + (literal.scale - literal.fraction.length) := by omega
    rw [hexponent, zpow_add₀ (by norm_num), zpow_natCast, ← hvalue, magnitude]
    ring
  have hclose' : |(literal.kept.1 * 10 ^ shift : ℚ) -
      Text.ofDigits (literal.whole ++ literal.fraction)| * 10 ^ 18 ≤
        Text.ofDigits (literal.whole ++ literal.fraction) := by
    exact_mod_cast hclose
  rw [hsplit, abs_mul, abs_of_pos hplace, ← hvalue, magnitude, mul_div_right_comm]
  exact mul_le_mul_of_nonneg_right ((le_div_iff₀ (by norm_num)).2 hclose') hplace.le

theorem magnitude_nonneg (literal : Literal) : 0 ≤ literal.magnitude :=
  mul_nonneg (Nat.cast_nonneg _) (zpow_nonneg (by norm_num) _)

theorem magnitude_of_plain (hf : literal.fraction = []) (he : literal.exponent = none) :
    literal.magnitude = Text.ofDigits literal.whole := by
  rw [magnitude, scale, hf, he]
  simp

theorem magnitude_of_rational (h : literal.rational = i) :
    literal.magnitude = i.natAbs ∧ if literal.negative then i ≤ 0 else 0 ≤ i := by
  have hnonneg := literal.magnitude_nonneg
  rw [Nat.cast_natAbs, Int.cast_abs]
  unfold rational at h
  split_ifs at h ⊢
  · have hi : (i : ℚ) ≤ 0 := by linarith
    exact ⟨by rw [abs_of_nonpos hi]; linarith, by exact_mod_cast hi⟩
  · have hi : (0 : ℚ) ≤ i := by linarith
    exact ⟨by rw [abs_of_nonneg hi, h], by exact_mod_cast hi⟩

/-- The literal of an integer within the range denotes a number that is held between zero and a
bound as the integer is. -/
theorem exists_value (h : literal.WellFormed) (hi : i.natAbs ≤ decimalBound)
    (hvalue : literal.rational = i) (hbound : bound ≤ 2 ^ 32) :
    ∃ number, literal.value? = some number ∧
      (number.toBinary64.round.clampNat 0 bound : ℤ) = min (max i 0) bound := by
  obtain ⟨hmagnitude, hsign⟩ := magnitude_of_rational hvalue
  obtain ⟨x, hx, hwithin⟩ := exists_magnitude h hi hmagnitude
  have hreal : ((if literal.negative then x.neg else x).round.clampNat 0 bound : ℤ) =
      min (max i 0) bound := hwithin.clampNat_signed hsign hbound
  have hplain : (literal.fraction.isEmpty && literal.exponent.isNone) = true →
      Text.ofDigits literal.whole = i.natAbs := by
    intro hp
    rw [Bool.and_eq_true, List.isEmpty_iff, Option.isNone_iff_eq_none] at hp
    have hdigits := magnitude_of_plain hp.1 hp.2
    rw [hmagnitude] at hdigits
    exact_mod_cast hdigits.symm
  simp only [value?, hx, Option.map_some]
  generalize (if literal.negative then x.neg else x) = y at hreal ⊢
  split_ifs with hp hneg hmin hmax
  · rw [if_pos hneg] at hsign
    have hi : (-(Text.ofDigits literal.whole) : ℤ) = i := by
      rw [hplain hp]
      omega
    exact ⟨_, rfl, hi ▸ clampNat_round_ofInt_of_le _ hbound⟩
  · exact ⟨_, rfl, hreal⟩
  · rw [if_neg hneg] at hsign
    have hi : (Text.ofDigits literal.whole : ℤ) = i := by
      rw [hplain hp]
      omega
    exact ⟨_, rfl, hi ▸ clampNat_round_ofInt_of_le _ hbound⟩
  · exact ⟨_, rfl, hreal⟩
  · exact ⟨_, rfl, hreal⟩

end Literal

end Json

end Appraisal
