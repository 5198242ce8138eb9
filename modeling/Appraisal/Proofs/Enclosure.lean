import Appraisal.Proofs.Average

/-!
# The average stays among the scores

Rounding passes no whole number: neither the hundredths that are nearest to a quotient nor the
number that is nearest to a count of hundredths (`between_hundredths`). So the average keeps between
any bounds of the scores from the first step on (`Averages.enclosed_run`), whatever the roundings of
the steps add up to, and scores that are all the same have that score for their average.
-/

namespace Appraisal

namespace Binary64

/-- Whether a number is finite, not negative, and from one rational number up to another. -/
def Between (x : Binary64) (low high : ℚ) : Prop :=
  ∃ units : ℕ, x = .finite false units ∧ low ≤ units / one ∧ (units : ℚ) / one ≤ high

variable {low high cents : ℕ}

theorem hundredths_eq (h : cents ≤ 10000) :
    hundredths cents = ofRatio false (cents * one * one) (100 * one) := by
  have hden : 100 * one ≠ 0 := Nat.mul_ne_zero (by decide) one_pos.ne'
  rw [hundredths, ofNat_of_lt (lt_exactBound (by omega)), ofNat_of_lt (lt_exactBound (by decide)),
    div, if_neg hden, bne_self_eq_false]

/-- Up to a hundred, whole numbers are held exactly, so that none lies between a count of hundredths
and the number nearest to it. -/
theorem between_hundredths (h : cents ≤ 10000) (hlow : 100 * low ≤ cents)
    (hhigh : cents ≤ 100 * high) : (hundredths cents).Between low high := by
  have hone := one_pos
  have hden : 0 < 100 * one := Nat.mul_pos (by decide) hone
  have hquotient : cents * one * one / (100 * one) < pow2 (7 + 1074) := by
    have hnum : cents * one < 100 * (pow2 7 * one) :=
      calc cents * one ≤ 10000 * one := Nat.mul_le_mul_right one h
        _ < 100 * pow2 7 * one := Nat.mul_lt_mul_of_pos_right (by decide) hone
        _ = 100 * (pow2 7 * one) := Nat.mul_assoc 100 (pow2 7) one
    rw [Nat.mul_div_mul_right _ _ hone, pow2_add, ← one]
    exact Nat.div_lt_of_lt_mul hnum
  have hspacing := spacing_dvd_one_of_lt hquotient (by decide)
  have hge : low * one ≤ nearest (cents * one * one) (100 * one) := by
    refine le_nearest hden (Dvd.dvd.mul_left hspacing low) ?_
    calc low * one * (100 * one) = 100 * low * one * one := by ring
      _ ≤ cents * one * one := Nat.mul_le_mul_right one (Nat.mul_le_mul_right one hlow)
  have hle : nearest (cents * one * one) (100 * one) ≤ high * one := by
    refine nearest_le hden (Dvd.dvd.mul_left hspacing high) ?_
    calc cents * one * one ≤ 100 * high * one * one :=
          Nat.mul_le_mul_right one (Nat.mul_le_mul_right one hhigh)
      _ = high * one * (100 * one) := by ring
  have hone' := one_pos_rat
  refine ⟨_, (within_hundredths h).eq_nearest (hundredths_eq h), ?_, ?_⟩
  · rw [le_div_iff₀ hone']
    exact_mod_cast hge
  · rw [div_le_iff₀ hone']
    exact_mod_cast hle

theorem Between.eq_ofInt {x : Binary64} {n : ℕ} (h : x.Between n n) (hn : n < exactBound) :
    x = ofInt n := by
  obtain ⟨units, rfl, hlow, hhigh⟩ := h
  have hunits : (units : ℚ) / one = n := le_antisymm hhigh hlow
  rw [div_eq_iff one_pos_rat.ne'] at hunits
  have hnat : units = n * one := by exact_mod_cast hunits
  rw [ofInt_natCast, ofNat_of_lt hn, hnat]

theorem Between.mono {x : Binary64} {low high least greatest : ℚ} (h : x.Between low high)
    (hlow : least ≤ low) (hhigh : high ≤ greatest) : x.Between least greatest := by
  obtain ⟨units, rfl, hge, hle⟩ := h
  exact ⟨units, rfl, hlow.trans hge, hle.trans hhigh⟩

end Binary64

namespace Totals

variable {before : Option Totals} {n cents : ℕ} {one : Scored} {low high : ℤ}

section Step

/-- The hundredths after one more score lie between the bounds of the ones before and the score. -/
theorem Averages.enclosed_after (h : (before.getD start).Averages n cents) (hn : n + 1 < 2 ^ 31)
    (hone : 0 ≤ one.score ∧ one.score ≤ 100) (hbetween : low ≤ one.score ∧ one.score ≤ high)
    (hlow : n * (100 * low) ≤ n * cents) (hhigh : (n * cents : ℤ) ≤ n * (100 * high)) :
    ∃ next : ℕ, (after before one).Averages (n + 1) next ∧ 100 * low ≤ next ∧
      next ≤ 100 * high := by
  obtain ⟨next, hnext, hnear⟩ := h.exists_after hn hone
  refine ⟨next, hnext, ?_, ?_⟩
  · have hle := neg_abs_le ((n + 1) * next - (n * cents + 100 * one.score) : ℤ)
    have hless : ((n : ℤ) + 1) * (100 * low) < (n + 1) * (next + 1) := by linarith
    have := lt_of_mul_lt_mul_left hless (by omega)
    omega
  · have hle := le_abs_self ((n + 1) * next - (n * cents + 100 * one.score) : ℤ)
    have hless : ((n : ℤ) + 1) * next < (n + 1) * (100 * high + 1) := by linarith
    have := lt_of_mul_lt_mul_left hless (by omega)
    omega

end Step

section Run

theorem Averages.enclosed_run : ∀ (scored : List Scored) {before : Option Totals} {n cents : ℕ},
    (before.getD start).Averages n cents → n + scored.length < 2 ^ 31 →
    (∀ one ∈ scored, 0 ≤ one.score ∧ one.score ≤ 100) →
    (∀ one ∈ scored, low ≤ one.score ∧ one.score ≤ high) →
    (n : ℤ) * (100 * low) ≤ n * cents → (n * cents : ℤ) ≤ n * (100 * high) →
    ∃ last : ℕ, ((folded before scored).getD start).Averages (n + scored.length) last ∧
      ((n + scored.length : ℕ) : ℤ) * (100 * low) ≤ (n + scored.length : ℕ) * last ∧
      ((n + scored.length : ℕ) * last : ℤ) ≤ (n + scored.length : ℕ) * (100 * high)
  | [], _, _, cents, h, _, _, _, hlow, hhigh => ⟨cents, h, hlow, hhigh⟩
  | one :: rest, before, n, cents, h, hcount, hscores, hbetween, hlow, hhigh => by
    rw [List.length_cons] at hcount
    obtain ⟨next, hnext, hge, hle⟩ := h.enclosed_after (by omega) (hscores one List.mem_cons_self)
      (hbetween one List.mem_cons_self) hlow hhigh
    have hnext' : ((some (after before one)).getD start).Averages (n + 1) next := hnext
    have hpos : (0 : ℤ) ≤ (n + 1 : ℕ) := Int.natCast_nonneg _
    obtain ⟨last, hlast, hge', hle'⟩ := enclosed_run rest hnext' (by omega)
      (fun other hother => hscores other (List.mem_cons_of_mem _ hother))
      (fun other hother => hbetween other (List.mem_cons_of_mem _ hother))
      (mul_le_mul_of_nonneg_left hge hpos) (mul_le_mul_of_nonneg_left hle hpos)
    have hlength : n + 1 + rest.length = n + (one :: rest).length := by
      rw [List.length_cons]
      omega
    rw [hlength] at hlast hge' hle'
    exact ⟨last, hlast, hge', hle'⟩

theorem best_folded : ∀ (scored : List Scored) (before : Option Totals),
    ((folded before scored).getD start).best =
      (scored.map Scored.score).foldl max (before.getD start).best
  | [], _ => rfl
  | one :: rest, before => best_folded rest (some (after before one))

end Run

section Seen

/-- Whether statistics are in the bounds that the scores of the analyses seen so far set: the
average lies between the least and the greatest of them, and the count fits in 32 bits with a sign. -/
structure Enclosed (totals : Totals) (seen : List Scored) : Prop where
  counted : totals.analyses.toInt = seen.length
  fits : totals.analyses.toInt ≤ 2147483647
  between : ∃ low high, (seen.map Scored.score).min? = some low ∧
    (seen.map Scored.score).max? = some high ∧ totals.average.Between low high ∧
    totals.best = high
  ordered : totals.average.Between 0 totals.best ∧ totals.best ≤ 100
  constant : ∀ score, (∀ one ∈ seen, one.score = score) → totals.average = .ofInt score

variable {totals : Totals} {seen : List Scored}

theorem best_of_folded (h : folded none seen = some totals)
    (hmax : (seen.map Scored.score).max? = some high) (hhigh : 0 ≤ high) : totals.best = high := by
  have hbest := best_folded seen none
  rw [h, List.foldl_max, hmax] at hbest
  exact hbest.trans (max_eq_right hhigh)

/-- Over scores between two bounds the average is a count of hundredths between them. -/
theorem exists_averages (hne : seen ≠ []) (hcount : seen.length < 2 ^ 31)
    (hscores : ∀ one ∈ seen, 0 ≤ one.score ∧ one.score ≤ 100)
    (hbetween : ∀ one ∈ seen, low ≤ one.score ∧ one.score ≤ high)
    (h : folded none seen = some totals) :
    ∃ cents : ℕ, totals.Averages seen.length cents ∧ 100 * low ≤ cents ∧ cents ≤ 100 * high := by
  obtain ⟨cents, hcents, hge, hle⟩ := @Averages.enclosed_run low high seen none 0 0 averages_start
    (by rwa [Nat.zero_add]) hscores hbetween (by simp) (by simp)
  rw [Nat.zero_add] at hcents hge hle
  rw [h] at hcents
  have hpos : (0 : ℤ) < seen.length := Int.natCast_pos.2 (List.length_pos_iff.2 hne)
  exact ⟨cents, hcents, le_of_mul_le_mul_left hge hpos, le_of_mul_le_mul_left hle hpos⟩

theorem average_between (hne : seen ≠ []) (hcount : seen.length < 2 ^ 31)
    (hscores : ∀ one ∈ seen, 0 ≤ one.score ∧ one.score ≤ 100) (hlow : 0 ≤ low)
    (hbetween : ∀ one ∈ seen, low ≤ one.score ∧ one.score ≤ high)
    (h : folded none seen = some totals) : totals.average.Between low high := by
  obtain ⟨cents, hcents, hge, hle⟩ := exists_averages hne hcount hscores hbetween h
  obtain ⟨least, rfl⟩ := Int.eq_ofNat_of_zero_le hlow
  obtain ⟨greatest, rfl⟩ := Int.eq_ofNat_of_zero_le (by omega : 0 ≤ high)
  rw [hcents.average]
  exact Binary64.between_hundredths hcents.bounded (by omega) (by omega)

theorem average_constant (hne : seen ≠ []) (hcount : seen.length < 2 ^ 31)
    (hscores : ∀ one ∈ seen, 0 ≤ one.score ∧ one.score ≤ 100)
    (hsame : ∀ one ∈ seen, one.score = low) (h : folded none seen = some totals) :
    totals.average = .ofInt low := by
  obtain ⟨one, hone⟩ := List.exists_mem_of_ne_nil seen hne
  have hlow := hscores one hone
  rw [hsame one hone] at hlow
  have hbetween := average_between hne hcount hscores hlow.1
    (fun other hother => ⟨(hsame other hother).ge, (hsame other hother).le⟩) h
  obtain ⟨n, rfl⟩ := Int.eq_ofNat_of_zero_le hlow.1
  exact hbetween.eq_ofInt (lt_of_le_of_lt (by omega : n ≤ 100) (by decide))

/-- After every step of a run the average lies between the least and the greatest score seen so far.
Scores that are all the same have that score for their average. -/
theorem average_enclosed (scored : List Scored) (hcount : scored.length < 2 ^ 31)
    (hscores : ∀ one ∈ scored, 0 ≤ one.score ∧ one.score ≤ 100) (seen : List Scored)
    (hseen : seen <+: scored) (hne : seen ≠ []) :
    ∃ totals, folded none seen = some totals ∧ totals.Enclosed seen := by
  have hlength : seen.length < 2 ^ 31 := hseen.length_le.trans_lt hcount
  have hscores : ∀ one ∈ seen, 0 ≤ one.score ∧ one.score ≤ 100 :=
    fun one hone => hscores one (hseen.subset hone)
  obtain ⟨totals, htotals⟩ := exists_folded hne
  have hmap : seen.map Scored.score ≠ [] := mt List.map_eq_nil_iff.1 hne
  obtain ⟨low, hlow⟩ := Option.ne_none_iff_exists'.1 (mt List.min?_eq_none_iff.1 hmap)
  obtain ⟨high, hhigh⟩ := Option.ne_none_iff_exists'.1 (mt List.max?_eq_none_iff.1 hmap)
  obtain ⟨hlowMem, hle⟩ := List.min?_eq_some_iff.1 hlow
  obtain ⟨hhighMem, hge⟩ := List.max?_eq_some_iff.1 hhigh
  obtain ⟨least, hleast, rfl⟩ := List.mem_map.1 hlowMem
  obtain ⟨greatest, hgreatest, rfl⟩ := List.mem_map.1 hhighMem
  have hbetween : ∀ one ∈ seen, least.score ≤ one.score ∧ one.score ≤ greatest.score :=
    fun one hone => ⟨hle _ (List.mem_map_of_mem hone), hge _ (List.mem_map_of_mem hone)⟩
  have hbest := best_of_folded htotals hhigh (hscores greatest hgreatest).1
  have haverage := average_between hne hlength hscores (hscores least hleast).1 hbetween htotals
  obtain ⟨cents, hcents, -⟩ := exists_averages hne hlength hscores hbetween htotals
  refine ⟨totals, htotals, hcents.analyses, ?_, ⟨_, _, hlow, hhigh, haverage, hbest⟩, ?_, ?_⟩
  · rw [hcents.analyses]
    omega
  · rw [hbest]
    exact ⟨haverage.mono (by exact_mod_cast (hscores least hleast).1) le_rfl,
      (hscores greatest hgreatest).2⟩
  · exact fun score hsame => average_constant hne hlength hscores hsame htotals

/-- Scores of which the first three have a mean that is not held exactly. -/
def thirds : List Scored := [100, 99, 99, 0].map fun score => ⟨score, "python", "google"⟩

theorem average_enclosed_thirds :
    (∀ one ∈ thirds, 0 ≤ one.score ∧ one.score ≤ 100) ∧ thirds.take 3 <+: thirds ∧
      ∃ totals, folded none (thirds.take 3) = some totals ∧ totals.Enclosed (thirds.take 3) :=
  ⟨by decide, List.take_prefix _ _,
    average_enclosed _ (by decide) (by decide) _ (List.take_prefix _ _) (by decide)⟩

end Seen

end Totals

end Appraisal
