import Appraisal.Proofs.Marks
import Mathlib.Data.Set.Card

/-!
# Where words stand in a text

A scan goes through a text from the left with the last character it has passed. What it finds is
described here by splitting the text: a word stands at a position if the text splits into what comes
before it, the word, and what comes after it, with a boundary at either end (`Stands`). A scan with
a test that finds the words of a kind finds out whether one occurs (`Finds.somewhere_iff`), or
counts the positions of all of them (`Finds.positions_eq`).
-/

namespace Appraisal.Text

/-- An ASCII letter, a digit or an underscore. -/
def WordChar (c : Char) : Prop :=
  ('a' ≤ c ∧ c ≤ 'z') ∨ ('A' ≤ c ∧ c ≤ 'Z') ∨ ('0' ≤ c ∧ c ≤ '9') ∨ c = '_'

/-- Exactly one of the characters before and after a position is a word character. -/
def Boundary (before after : List Char) : Prop :=
  Xor (∃ c ∈ before.getLast?, WordChar c) (∃ c ∈ after.head?, WordChar c)

/-- Whether a word of some kind starts at a position and has a boundary at both ends. -/
def Stands (Kind : List Char → Prop) (text : List Char) (i : ℕ) : Prop :=
  ∃ before word after, text = before ++ word ++ after ∧ before.length = i ∧ Kind word ∧
    Boundary before (word ++ after) ∧ Boundary (before ++ word) after

def Occurs (Kind : List Char → Prop) (text : List Char) : Prop := ∃ i, Stands Kind text i

/-- What simple case folding makes of a character if that is an ASCII character. -/
def folded (c : Char) : Char :=
  if c = 'ſ' then 's' else if c = '\u212A' then 'k' else c.toLower

/-- Whether folding leaves a word as it is. -/
def isFolded (word : String) : Bool := word.toList.all fun c => folded c == c

/-- One of some words as it is written. -/
def Word (words : List String) (word : List Char) : Prop := ∃ w ∈ words, word = w.toList

/-- One of some words in any case. -/
def AnyCase (words : List String) (word : List Char) : Prop :=
  ∃ w ∈ words, word.map folded = w.toList

/-- A stretch of text in which each character meets its condition. -/
def Fits (pattern : Pattern) (word : List Char) : Prop :=
  List.Forall₂ (fun p c => p c = true) pattern word

section Boundaries

variable {c : Char} {before after : List Char}

theorem isUpper_iff : c.isUpper = true ↔ 'A' ≤ c ∧ c ≤ 'Z' := decide_eq_true_iff

theorem isLower_iff : c.isLower = true ↔ 'a' ≤ c ∧ c ≤ 'z' :=
  (Bool.and_eq_true _ _).to_iff.trans (and_congr decide_eq_true_iff decide_eq_true_iff)

theorem isAlphanum_iff :
    c.isAlphanum = true ↔ (c.isUpper = true ∨ c.isLower = true) ∨ c.isDigit = true :=
  (Bool.or_eq_true _ _).to_iff.trans (or_congr (Bool.or_eq_true _ _).to_iff Iff.rfl)

theorem isWordChar_iff : isWordChar c = true ↔ WordChar c := by
  have hdigit : c.isDigit = true ↔ '0' ≤ c ∧ c ≤ '9' := Char.isDigit_iff_toNat
  rw [isWordChar, Bool.or_eq_true, isAlphanum_iff, isUpper_iff, isLower_iff, hdigit, beq_iff_eq,
    WordChar]
  tauto

theorem boundary_iff : boundary before.getLast? after.head? = true ↔ Boundary before after := by
  have hany (near : Option Char) : near.any isWordChar = true ↔ ∃ c ∈ near, WordChar c := by
    simp only [Option.any_eq_true, Option.mem_def, isWordChar_iff]
  rw [boundary, Boundary, ← hany, ← hany]
  cases before.getLast?.any isWordChar <;> cases after.head?.any isWordChar <;> simp [Xor]

/-- After a word character a boundary is the end of the word. -/
theorem boundary_iff_of_last (h : ∃ c ∈ before.getLast?, WordChar c) :
    Boundary before after ↔ ∀ c ∈ after.head?, ¬ WordChar c := by
  rw [Boundary, eq_true h, xor_true]
  simp

end Boundaries

section Positions

/-- A character that has been passed is the last one until another is passed. -/
theorem getLast?_cons_or (c : Char) (before : Option Char) (passed : List Char) :
    (c :: passed).getLast?.or before = passed.getLast?.or (some c) := by
  rw [List.getLast?_cons]
  cases passed.getLast? <;> rfl

theorem positions_eq_sum (test : Option Char → List Char → Bool) :
    ∀ (before : Option Char) (text : List Char), positions test before text =
      ∑ i ∈ Finset.range (text.length + 1),
        (test ((text.take i).getLast?.or before) (text.drop i)).toNat
  | before, [] => by simp [positions]
  | before, c :: text => by
    rw [positions, positions_eq_sum test (some c) text, List.length_cons,
      Finset.sum_range_succ' _ (text.length + 1), Nat.add_comm]
    congr 1
    refine Finset.sum_congr rfl fun i _ => ?_
    rw [List.take_succ_cons, List.drop_succ_cons, getLast?_cons_or]

/-- A count of positions counts the splits of the text at which the test holds. -/
theorem positions_eq_ncard (test : Option Char → List Char → Bool) (text : List Char) :
    positions test none text = {i | ∃ before rest, text = before ++ rest ∧ before.length = i ∧
      test before.getLast? rest = true}.ncard := by
  have hset : {i | ∃ before rest, text = before ++ rest ∧ before.length = i ∧
      test before.getLast? rest = true} = ((Finset.range (text.length + 1)).filter fun i =>
        test (text.take i).getLast? (text.drop i) = true : Set ℕ) := by
    ext i
    simp only [Set.mem_ofPred_eq, Finset.coe_filter, Finset.mem_range, Nat.lt_succ_iff]
    constructor
    · rintro ⟨before, rest, rfl, rfl, htest⟩
      exact ⟨by simp, by simpa using htest⟩
    · rintro ⟨hi, htest⟩
      exact ⟨text.take i, text.drop i, (List.take_append_drop i text).symm,
        List.length_take_of_le hi, htest⟩
  rw [hset, Set.ncard_coe_finset, positions_eq_sum, Finset.card_filter]
  refine Finset.sum_congr rfl fun i _ => ?_
  rw [Option.or_none]
  cases test (text.take i).getLast? (text.drop i) <;> rfl

theorem somewhere_iff_or {test : Option Char → List Char → Bool} :
    ∀ {before : Option Char} {text : List Char}, somewhere test before text = true ↔
      ∃ passed rest, text = passed ++ rest ∧ test (passed.getLast?.or before) rest = true
  | before, [] => by
    constructor
    · exact fun h => ⟨[], [], rfl, h⟩
    · rintro ⟨passed, rest, htext, htest⟩
      obtain ⟨rfl, rfl⟩ := List.append_eq_nil_iff.1 htext.symm
      exact htest
  | before, c :: text => by
    rw [somewhere, Bool.or_eq_true, somewhere_iff_or]
    constructor
    · rintro (htest | ⟨passed, rest, rfl, htest⟩)
      · exact ⟨[], c :: text, rfl, htest⟩
      · exact ⟨c :: passed, rest, rfl, by rwa [getLast?_cons_or]⟩
    · rintro ⟨passed, rest, htext, htest⟩
      cases passed with
      | nil =>
        obtain rfl : c :: text = rest := htext
        exact .inl htest
      | cons d passed =>
        obtain ⟨rfl, rfl⟩ := List.cons.inj htext
        exact .inr ⟨passed, rest, rfl, by rwa [getLast?_cons_or] at htest⟩

theorem somewhere_iff {test : Option Char → List Char → Bool} {text : List Char} :
    somewhere test none text = true ↔
      ∃ before rest, text = before ++ rest ∧ test before.getLast? rest = true := by
  simp only [somewhere_iff_or, Option.or_none]

end Positions

section Fitting

variable {pattern : Pattern} {text rest : List Char} {before last : Option Char}

theorem fit_eq_some_iff : ∀ {pattern : Pattern} {before last : Option Char} {text rest : List Char},
    fit pattern before text = some (last, rest) ↔
      ∃ word, text = word ++ rest ∧ Fits pattern word ∧ last = word.getLast?.or before
  | [], before, last, text, rest => by
    simp only [fit, Option.some.injEq, Prod.mk.injEq, Fits, List.forall₂_nil_left_iff]
    constructor
    · rintro ⟨rfl, rfl⟩
      exact ⟨[], rfl, rfl, rfl⟩
    · rintro ⟨_, rfl, rfl, rfl⟩
      exact ⟨rfl, rfl⟩
  | p :: pattern, before, last, [], rest => by
    simp only [fit, reduceCtorEq, false_iff]
    rintro ⟨word, htext, hfits, -⟩
    obtain ⟨rfl, -⟩ := List.append_eq_nil_iff.1 htext.symm
    cases hfits
  | p :: pattern, before, last, c :: text, rest => by
    rw [fit]
    split_ifs with hp
    · rw [fit_eq_some_iff]
      constructor
      · rintro ⟨word, rfl, hfits, rfl⟩
        exact ⟨c :: word, rfl, .cons hp hfits, (getLast?_cons_or c before word).symm⟩
      · rintro ⟨_, htext, hfits, rfl⟩
        cases hfits with
        | @cons _ d _ word _ hfits =>
          obtain ⟨rfl, rfl⟩ := List.cons.inj htext
          exact ⟨word, rfl, hfits, getLast?_cons_or c before word⟩
    · simp only [false_iff]
      rintro ⟨_, htext, hfits, -⟩
      cases hfits with
      | cons hd _ =>
        obtain ⟨rfl, -⟩ := List.cons.inj htext
        exact hp hd

theorem boundedHere_iff {before : List Char} :
    boundedHere pattern before.getLast? text = true ↔ ∃ word after, text = word ++ after ∧
      Fits pattern word ∧ Boundary before text ∧ Boundary (before ++ word) after := by
  simp only [boundedHere, Bool.and_eq_true, boundary_iff, Option.any_eq_true, Prod.exists]
  constructor
  · rintro ⟨hstart, last, after, hfit, hend⟩
    obtain ⟨word, rfl, hfits, rfl⟩ := fit_eq_some_iff.1 hfit
    rw [← List.getLast?_append, boundary_iff] at hend
    exact ⟨word, after, rfl, hfits, hstart, hend⟩
  · rintro ⟨word, after, rfl, hfits, hstart, hend⟩
    refine ⟨hstart, _, after, fit_eq_some_iff.2 ⟨word, rfl, hfits, rfl⟩, ?_⟩
    rwa [← List.getLast?_append, boundary_iff]

end Fitting

section Here

variable {Kind : List Char → Prop} {here : Option Char → List Char → Bool} {text : List Char}

/-- Whether a test finds the words of a kind that start where it is made. -/
structure Finds (here : Option Char → List Char → Bool) (Kind : List Char → Prop) : Prop where
  here_iff : ∀ {before rest : List Char}, here before.getLast? rest = true ↔ ∃ word after,
    rest = word ++ after ∧ Kind word ∧ Boundary before rest ∧ Boundary (before ++ word) after

theorem finds_boundedHere (pattern : Pattern) : Finds (boundedHere pattern) (Fits pattern) :=
  ⟨boundedHere_iff⟩

theorem Finds.stands_iff (h : Finds here Kind) {i : ℕ} : Stands Kind text i ↔ ∃ before rest,
    text = before ++ rest ∧ before.length = i ∧ here before.getLast? rest = true := by
  simp only [h.here_iff]
  constructor
  · rintro ⟨before, word, after, rfl, hi, hkind, hstart, hend⟩
    exact ⟨before, word ++ after, List.append_assoc _ _ _, hi, word, after, rfl, hkind, hstart,
      hend⟩
  · rintro ⟨before, _, rfl, hi, word, after, rfl, hkind, hstart, hend⟩
    exact ⟨before, word, after, (List.append_assoc _ _ _).symm, hi, hkind, hstart, hend⟩

theorem Finds.somewhere_iff (h : Finds here Kind) :
    somewhere here none text = true ↔ Occurs Kind text := by
  simp only [Text.somewhere_iff, Occurs, h.stands_iff]
  exact ⟨fun ⟨before, rest, htext, hhere⟩ => ⟨before.length, before, rest, htext, rfl, hhere⟩,
    fun ⟨_, before, rest, htext, _, hhere⟩ => ⟨before, rest, htext, hhere⟩⟩

theorem Finds.positions_eq (h : Finds here Kind) :
    positions here none text = {i | Stands Kind text i}.ncard := by
  simp only [positions_eq_ncard, h.stands_iff]

end Here

section Kinds

variable {pattern : Pattern} {text : List Char}

theorem Stands.imp {Kind Other : List Char → Prop} {i : ℕ} (h : Stands Kind text i)
    (himp : ∀ word, Kind word → Other word) : Stands Other text i := by
  obtain ⟨before, word, after, htext, hi, hkind, hstart, hend⟩ := h
  exact ⟨before, word, after, htext, hi, himp word hkind, hstart, hend⟩

theorem occurs_congr {Kind Other : List Char → Prop}
    (h : ∀ word, Kind word ↔ Other word) : Occurs Kind text ↔ Occurs Other text :=
  ⟨fun ⟨i, hs⟩ => ⟨i, hs.imp fun word => (h word).1⟩,
    fun ⟨i, hs⟩ => ⟨i, hs.imp fun word => (h word).2⟩⟩

theorem boundedAny_iff {patterns : List Pattern} : boundedAny patterns text = true ↔
    Occurs (fun word => ∃ pattern ∈ patterns, Fits pattern word) text := by
  simp only [boundedAny, List.any_eq_true, bounded, (finds_boundedHere _).somewhere_iff]
  constructor
  · rintro ⟨pattern, hpattern, i, h⟩
    exact ⟨i, h.imp fun word hfits => ⟨pattern, hpattern, hfits⟩⟩
  · rintro ⟨i, before, word, after, htext, hi, ⟨pattern, hpattern, hfits⟩, hends⟩
    exact ⟨pattern, hpattern, i, before, word, after, htext, hi, hfits, hends⟩

end Kinds

section Words

variable {text word : List Char} {words : List String}

/-- A pattern made of one condition a character is fitted by what has the characters it is made
of, if the condition says which character that is. -/
theorem fits_map_iff {p : Char → Char → Bool} {f : Char → Char} :
    ∀ {pattern word : List Char}, (∀ w ∈ pattern, ∀ c, p w c = true ↔ f c = w) →
      (Fits (pattern.map p) word ↔ word.map f = pattern)
  | [], word, _ => by simp [Fits]
  | w :: pattern, [], _ => by simp [Fits]
  | w :: pattern, c :: word, h => by
    have hw := h w List.mem_cons_self c
    have ih := @fits_map_iff p f pattern word fun v hv => h v (List.mem_cons_of_mem _ hv)
    rw [Fits] at ih ⊢
    rw [List.map_cons, List.forall₂_cons, ih, hw, List.map_cons, List.cons.injEq]

theorem fits_exactly_iff {w : String} : Fits (exactly w) word ↔ word = w.toList := by
  have h : ∀ w' ∈ w.toList, ∀ c : Char, (c == w') = true ↔ id c = w' := fun _ _ _ => beq_iff_eq
  rw [exactly, fits_map_iff h, List.map_id]

theorem toNat_toLower (c : Char) :
    c.toLower.toNat = if 65 ≤ c.toNat ∧ c.toNat ≤ 90 then c.toNat + 32 else c.toNat := by
  have hiff : (c.val ≥ 'A'.val ∧ c.val ≤ 'Z'.val) ↔ 65 ≤ c.toNat ∧ c.toNat ≤ 90 := Iff.rfl
  unfold Char.toLower
  simp only [hiff]
  split_ifs with h
  · show (c.val + 32).toNat = _
    rw [UInt32.toNat_add]
    show (c.toNat + 32) % 4294967296 = _
    omega
  · rfl

theorem toNat_toUpper (c : Char) :
    c.toUpper.toNat = if 97 ≤ c.toNat ∧ c.toNat ≤ 122 then c.toNat - 32 else c.toNat := by
  have hiff : ('a'.val ≤ c.val ∧ c.val ≤ 'z'.val) ↔ 97 ≤ c.toNat ∧ c.toNat ≤ 122 := Iff.rfl
  unfold Char.toUpper
  simp only [hiff]
  split_ifs with h
  · show (c.val + 4294967264).toNat = _
    rw [UInt32.toNat_add]
    show (c.toNat + 4294967264) % 4294967296 = _
    omega
  · rfl

theorem toLower_eq_iff {w c : Char} (hw : w.toLower = w) :
    c.toLower = w ↔ c = w ∨ c = w.toUpper := by
  have hw' := congrArg Char.toNat hw
  rw [toNat_toLower] at hw'
  simp only [← Char.toNat_inj, toNat_toLower, toNat_toUpper]
  split_ifs at hw' ⊢ <;> omega

/-- What folds to a letter that folding leaves as it is are the forms of that letter. -/
theorem foldsTo_iff {w c : Char} (hw : folded w = w) : foldsTo w c = true ↔ folded c = w := by
  obtain ⟨hlower, hs, hk⟩ : w.toLower = w ∧ 'ſ' ≠ w ∧ '\u212A' ≠ w := by
    unfold folded at hw
    split_ifs at hw with h1 h2
    · exact absurd (hw.trans h1) (by decide)
    · exact absurd (hw.trans h2) (by decide)
    · exact ⟨hw, Ne.symm h1, Ne.symm h2⟩
  simp only [foldsTo, Bool.or_eq_true, Bool.and_eq_true, beq_iff_eq, ← toLower_eq_iff hlower,
    folded]
  split_ifs with h1 h2
  · subst h1
    have hkelvin : 'ſ' ≠ '\u212A' := by decide
    have hsame : 'ſ'.toLower = 'ſ' := by decide
    simp only [hsame, hs, hkelvin, and_true, and_false, or_false, false_or, eq_comm]
  · subst h2
    have hsame : '\u212A'.toLower = '\u212A' := by decide
    simp only [hsame, hk, h1, and_true, and_false, false_or, eq_comm]
  · simp only [h1, h2, and_false, or_false]

theorem fits_anyCase_iff {w : String} (hw : isFolded w = true) :
    Fits (anyCase w) word ↔ word.map folded = w.toList :=
  fits_map_iff fun c hc _ => foldsTo_iff (beq_iff_eq.1 (List.all_eq_true.1 hw c hc))

theorem boundedAny_exactly_iff :
    boundedAny (words.map exactly) text = true ↔ Occurs (Word words) text := by
  simp only [boundedAny_iff, List.mem_map, exists_exists_and_eq_and, fits_exactly_iff]
  rfl

theorem boundedAny_anyCase_iff (h : words.all isFolded = true) :
    boundedAny (words.map anyCase) text = true ↔ Occurs (AnyCase words) text := by
  rw [List.all_eq_true] at h
  rw [boundedAny_iff]
  refine occurs_congr fun word => ?_
  constructor
  · rintro ⟨_, hpattern, hfits⟩
    obtain ⟨w, hw, rfl⟩ := List.mem_map.1 hpattern
    exact ⟨w, hw, (fits_anyCase_iff (h w hw)).1 hfits⟩
  · rintro ⟨w, hw, hword⟩
    exact ⟨_, List.mem_map_of_mem hw, (fits_anyCase_iff (h w hw)).2 hword⟩

theorem fits_append_iff : ∀ {front back : Pattern} {word : List Char},
    Fits (front ++ back) word ↔ ∃ first second, word = first ++ second ∧ Fits front first ∧
      Fits back second
  | [], back, word => by
    constructor
    · exact fun h => ⟨[], word, rfl, .nil, h⟩
    · rintro ⟨first, second, rfl, hfirst, hsecond⟩
      obtain rfl := List.forall₂_nil_left_iff.1 hfirst
      exact hsecond
  | p :: front, back, word => by
    constructor
    · rintro (_ | ⟨hp, hrest⟩)
      obtain ⟨first, second, rfl, hfirst, hsecond⟩ := fits_append_iff.1 hrest
      exact ⟨_ :: first, second, rfl, .cons hp hfirst, hsecond⟩
    · rintro ⟨_, second, rfl, _ | ⟨hp, hfirst⟩, hsecond⟩
      exact .cons hp (fits_append_iff.2 ⟨_, second, rfl, hfirst, hsecond⟩)

end Words

end Appraisal.Text
