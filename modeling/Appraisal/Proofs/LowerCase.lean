import Appraisal.Language
import Mathlib.Data.List.Basic
import Mathlib.Tactic.SplitIfs

/-!
# Normal names

Lower-casing a second time changes nothing (`lower_lower`), although the form of a sigma depends on
the letters around it: what lower-casing gives holds no capital sigma any more, and no letter of it
is listed in a run (`IsLower`). It makes no white space either, so that a name in its normal form is
trimmed, and `normalName_normalName` follows.
-/

namespace Appraisal.Text

section Table

/-- The last lower-case form of the letters of a run. -/
def lastForm (run : Nat × Nat × Nat × Nat) : Nat := run.2.2.2 + (run.2.1 - run.1)

/-- Whether no lower-case form of the first run is a letter of the second. -/
def apart (r s : Nat × Nat × Nat × Nat) : Bool :=
  Nat.blt (lastForm r) s.1 || Nat.blt s.2.1 r.2.2.2 ||
    (List.range ((r.2.1 - r.1) / r.2.2.1 + 1)).all fun k =>
      !runHolds (r.2.2.2 + k * r.2.2.1) s

theorem runs_apart : (lowercaseRuns.all fun r => lowercaseRuns.all (apart r)) = true := by
  decide +kernel

/-- The ranges of numbers that no lower-case form lies in: white space, the dotted capital I, and
what is no character. -/
def barredRanges : List (Nat × Nat) :=
  [(9, 13), (0x20, 0x20), (0x85, 0x85), (0xA0, 0xA0), (0x130, 0x130), (0x1680, 0x1680),
    (0x2000, 0x200A), (0x2028, 0x2029), (0x202F, 0x202F), (0x205F, 0x205F), (0x3000, 0x3000),
    (0xD800, 0xDFFF), (0x110000, 0x200000)]

theorem runs_barred : (lowercaseRuns.all fun r => Nat.blt (lastForm r) 0x200000 &&
    barredRanges.all fun range => Nat.blt range.2 r.2.2.2 || Nat.blt (lastForm r) range.1) =
      true := by
  decide +kernel

theorem lastForm_lt {r : Nat × Nat × Nat × Nat} (hr : r ∈ lowercaseRuns) :
    lastForm r < 0x200000 := by
  have h := List.all_eq_true.1 runs_barred r hr
  rw [Bool.and_eq_true] at h
  exact Nat.le_of_ble_eq_true h.1

variable {n : Nat} {r s : Nat × Nat × Nat × Nat}

/-- The lower-case form of a letter that a run lists. -/
theorem form_bounds (hn : runHolds n r = true) :
    r.2.2.2 ≤ r.2.2.2 + (n - r.1) ∧ r.2.2.2 + (n - r.1) ≤ lastForm r := by
  simp only [runHolds, Bool.and_eq_true, decide_eq_true_eq] at hn
  unfold lastForm
  omega

theorem runHolds_form (hr : r ∈ lowercaseRuns) (hs : s ∈ lowercaseRuns)
    (hn : runHolds n r = true) : runHolds (r.2.2.2 + (n - r.1)) s = false := by
  have hb := form_bounds hn
  have h : apart r s = true := List.all_eq_true.1 (List.all_eq_true.1 runs_apart r hr) s hs
  simp only [apart, Bool.or_eq_true, Nat.blt_eq, List.all_eq_true, List.mem_range,
    Bool.not_eq_true'] at h
  rcases h with (h | h) | h
  · simp only [runHolds, Bool.and_eq_false_iff, decide_eq_false_iff_not]
    exact .inl (.inl (by omega))
  · simp only [runHolds, Bool.and_eq_false_iff, decide_eq_false_iff_not]
    exact .inl (.inr (by omega))
  · simp only [runHolds, Bool.and_eq_true, decide_eq_true_eq, beq_iff_eq] at hn
    have hk : (n - r.1) / r.2.2.1 ≤ (r.2.1 - r.1) / r.2.2.1 := Nat.div_le_div_right (by omega)
    have hd := Nat.div_add_mod (n - r.1) r.2.2.1
    rw [hn.2, Nat.add_zero, Nat.mul_comm] at hd
    simpa only [hd] using h ((n - r.1) / r.2.2.1) (by omega)

theorem form_not_barred (hr : r ∈ lowercaseRuns) (hn : runHolds n r = true)
    (range : Nat × Nat) (h : range ∈ barredRanges) :
    ¬ (range.1 ≤ r.2.2.2 + (n - r.1) ∧ r.2.2.2 + (n - r.1) ≤ range.2) := by
  have hb := form_bounds hn
  have hall := List.all_eq_true.1 runs_barred r hr
  rw [Bool.and_eq_true] at hall
  have hrange := List.all_eq_true.1 hall.2 range h
  simp only [Bool.or_eq_true, Nat.blt_eq] at hrange
  omega

theorem toNat_form (hr : r ∈ lowercaseRuns) (hn : runHolds n r = true) :
    (Char.ofNat (r.2.2.2 + (n - r.1))).toNat = r.2.2.2 + (n - r.1) := by
  have hb := form_bounds hn
  have hlt := lastForm_lt hr
  have hsurrogate := form_not_barred hr hn (0xD800, 0xDFFF) (by decide)
  have hlarge := form_not_barred hr hn (0x110000, 0x200000) (by decide)
  have hv : (r.2.2.2 + (n - r.1)).isValidChar := by
    simp only [Nat.isValidChar]
    omega
  rw [Char.ofNat, dif_pos hv]
  rfl

end Table

/-- Whether lower-casing keeps a character wherever it stands. -/
def IsLower (c : Char) : Prop := c ≠ 'Σ' ∧ lowerChar c = [c]

instance (c : Char) : Decidable (IsLower c) := inferInstanceAs (Decidable (_ ∧ _))

/-- A character that lower-casing has no form for. -/
theorem isLower_of_notListed {c : Char} (hi : c ≠ 'İ')
    (h : ∀ run ∈ lowercaseRuns, runHolds c.toNat run = false) : IsLower c := by
  have hfind : lowercaseRuns.find? (runHolds c.toNat) = none :=
    List.find?_eq_none.2 fun run hrun => by simp [h run hrun]
  refine ⟨?_, by simp [lowerChar, hi, hfind]⟩
  rintro rfl
  exact absurd (h (931, 939, 1, 963) (by decide)) (by decide)

theorem isLower_sigma : IsLower 'ς' ∧ IsLower 'σ' := by
  decide +kernel

theorem isLower_dotted : IsLower 'i' ∧ IsLower '\u0307' := by
  decide +kernel

theorem isSpace_barred {c : Char} (h : isSpace c = true) :
    ∃ range ∈ barredRanges, range.1 ≤ c.toNat ∧ c.toNat ≤ range.2 := by
  simp only [isSpace, Bool.or_eq_true, Bool.and_eq_true, decide_eq_true_eq, beq_iff_eq] at h
  simp only [barredRanges, List.mem_cons, List.not_mem_nil, or_false, exists_eq_or_imp,
    exists_eq_left]
  omega

/-- The characters that a character is lower-cased to. -/
def lowerPiece (before : List Char) (c : Char) (after : List Char) : List Char :=
  if c = 'Σ' then [lowerSigma before after] else lowerChar c

theorem lowerFrom_cons (before : List Char) (c : Char) (after : List Char) :
    lowerFrom before (c :: after) =
      lowerPiece before c after ++ lowerFrom (c :: before) after := rfl

/-- What a character is lower-cased to is in lower case, and white space only if the character
was. -/
theorem lowerChar_spec (c : Char) :
    lowerChar c ≠ [] ∧ ∀ d ∈ lowerChar c, IsLower d ∧ (isSpace c = false → isSpace d = false) := by
  unfold lowerChar
  split_ifs with hi
  · refine ⟨by simp, fun d hd => ?_⟩
    rw [List.mem_cons, List.mem_singleton] at hd
    rcases hd with rfl | rfl
    · exact ⟨isLower_dotted.1, fun _ => rfl⟩
    · exact ⟨isLower_dotted.2, fun _ => rfl⟩
  · cases hf : lowercaseRuns.find? (runHolds c.toNat) with
    | none =>
      refine ⟨by simp, fun d hd => ?_⟩
      rw [List.mem_singleton.1 hd]
      refine ⟨isLower_of_notListed hi fun run hrun => ?_, id⟩
      simpa using List.find?_eq_none.1 hf run hrun
    | some run =>
      refine ⟨by simp, fun d hd => ?_⟩
      rw [List.mem_singleton.1 hd]
      have hr := List.mem_of_find?_eq_some hf
      have hn := List.find?_some hf
      have hd := toNat_form hr hn
      refine ⟨isLower_of_notListed ?_ fun s hs => ?_, fun _ => ?_⟩
      · intro he
        have hbar := form_not_barred hr hn (0x130, 0x130) (by decide)
        rw [← hd, he] at hbar
        exact hbar (by decide)
      · rw [hd]
        exact runHolds_form hr hs hn
      · refine Bool.eq_false_iff.2 fun hspace => ?_
        obtain ⟨range, hrange, hle⟩ := isSpace_barred hspace
        rw [hd] at hle
        exact form_not_barred hr hn range hrange hle

theorem lowerPiece_spec (before : List Char) (c : Char) (after : List Char) :
    lowerPiece before c after ≠ [] ∧ ∀ d ∈ lowerPiece before c after,
      IsLower d ∧ (isSpace c = false → isSpace d = false) := by
  unfold lowerPiece lowerSigma
  split_ifs
  · exact ⟨by simp, by simpa using ⟨isLower_sigma.1, fun _ => rfl⟩⟩
  · exact ⟨by simp, by simpa using ⟨isLower_sigma.2, fun _ => rfl⟩⟩
  · exact lowerChar_spec c

theorem isLower_of_mem_lowerFrom : ∀ {before text : List Char} {d : Char},
    d ∈ lowerFrom before text → IsLower d
  | _, [], _, h => by simp [lowerFrom] at h
  | before, c :: after, d, h => by
    rw [lowerFrom_cons, List.mem_append] at h
    rcases h with h | h
    · exact ((lowerPiece_spec before c after).2 d h).1
    · exact isLower_of_mem_lowerFrom h

theorem lowerFrom_of_isLower : ∀ (before : List Char) {text : List Char},
    (∀ c ∈ text, IsLower c) → lowerFrom before text = text
  | _, [], _ => rfl
  | before, c :: after, h => by
    obtain ⟨hs, hc⟩ := h c List.mem_cons_self
    have hrest := lowerFrom_of_isLower (c :: before) fun d hd => h d (List.mem_cons_of_mem _ hd)
    rw [lowerFrom_cons, lowerPiece, if_neg hs, hc, hrest, List.singleton_append]

/-- Lower-casing a second time changes nothing. -/
theorem lower_lower (text : List Char) : lower (lower text) = lower text :=
  lowerFrom_of_isLower [] fun _ => isLower_of_mem_lowerFrom

section Trimmed

theorem trim_of_ends {text : List Char} (hh : ∀ c ∈ text.head?, isSpace c = false)
    (hl : ∀ c ∈ text.getLast?, isSpace c = false) : trim text = text := by
  have hstart : trimStart text = text := by
    cases text with
    | nil => rfl
    | cons c text => exact trimStart_of_head (hh c rfl)
  have hend : text.reverse.dropWhile isSpace = text.reverse := by
    cases hr : text.reverse with
    | nil => rfl
    | cons c rest =>
      have hc : isSpace c = false := hl c (by simp [← List.head?_reverse, hr])
      simp [hc]
  rw [trim, hstart, trimEnd, hend, List.reverse_reverse]

theorem head?_trimStart (text : List Char) : ∀ c ∈ (trimStart text).head?, isSpace c = false := by
  intro c hc
  have h := List.head?_dropWhile_not isSpace text
  rw [trimStart] at hc
  rw [Option.mem_def.1 hc] at h
  simpa using h

theorem head?_trim (text : List Char) : ∀ c ∈ (trim text).head?, isSpace c = false := by
  rw [← trim_trim, trim, ← trimStart_trimEnd]
  exact head?_trimStart _

theorem getLast?_trim (text : List Char) : ∀ c ∈ (trim text).getLast?, isSpace c = false := by
  intro c hc
  rw [trim, trimEnd, List.getLast?_reverse] at hc
  exact head?_trimStart _ c hc

theorem head?_lowerFrom {before text : List Char} (h : ∀ c ∈ text.head?, isSpace c = false) :
    ∀ d ∈ (lowerFrom before text).head?, isSpace d = false := by
  cases text with
  | nil => simp [lowerFrom]
  | cons c after =>
    obtain ⟨hne, hpiece⟩ := lowerPiece_spec before c after
    rw [lowerFrom_cons]
    cases hp : lowerPiece before c after with
    | nil => exact absurd hp hne
    | cons e rest =>
      rw [hp] at hpiece
      simpa using (hpiece e List.mem_cons_self).2 (h c rfl)

theorem lowerFrom_ne_nil (before : List Char) (c : Char) (after : List Char) :
    lowerFrom before (c :: after) ≠ [] := by
  rw [lowerFrom_cons]
  simp [(lowerPiece_spec before c after).1]

theorem getLast?_lowerFrom : ∀ {before text : List Char},
    (∀ c ∈ text.getLast?, isSpace c = false) →
    ∀ d ∈ (lowerFrom before text).getLast?, isSpace d = false
  | _, [], _, d, hd => by simp [lowerFrom] at hd
  | before, [c], h, d, hd => by
    rw [lowerFrom_cons, lowerFrom, List.append_nil] at hd
    exact ((lowerPiece_spec before c []).2 d (List.mem_of_mem_getLast? hd)).2 (h c rfl)
  | before, c :: next :: after, h, d, hd => by
    rw [lowerFrom_cons, List.getLast?_append_of_ne_nil _ (lowerFrom_ne_nil _ next after)] at hd
    exact getLast?_lowerFrom (by simpa using h) d hd

end Trimmed

/-- The normal form of a name is a normal form. -/
theorem normalName_normalName (name : String) : normalName (normalName name) = normalName name := by
  have htrim : trim (lower (trim name.toList)) = lower (trim name.toList) :=
    trim_of_ends (head?_lowerFrom (head?_trim _)) (getLast?_lowerFrom (getLast?_trim _))
  simp only [normalName, lowered, trimmed, String.toList_ofList, htrim, lower_lower]

end Appraisal.Text

namespace Appraisal.Language

/-- The tag of a language declares that language. -/
theorem parse_tag_parse (name : String) : parse (parse name).tag = parse name := by
  rw [parse, parse, tag_ofTag, Text.normalName_normalName]

end Appraisal.Language
