import Appraisal.Json.Reader
import Mathlib.Tactic.SplitIfs

/-!
# Number literals

A well-formed literal is read back from its characters, as long as what follows cannot continue it
(`readsNumber_text`). Its exponent may be spelled with either letter and with or without a plus, and
whatever is read as a number is some such spelling (`readsNumber_of_readNumber`). The literal of an
integer is well formed and denotes that integer, if it fits in 64 bits (`value?_ofInt`).
-/

namespace Appraisal

namespace Text

/-- Digits are split off from a text that does not go on with a digit. -/
theorem spanDigits_append_of_head {digits rest : List Char} (hd : digits.all Char.isDigit = true)
    (hr : ∀ c ∈ rest.head?, c.isDigit = false) : spanDigits (digits ++ rest) = (digits, rest) := by
  have hall : ∀ c ∈ digits, c.isDigit = true := List.all_eq_true.1 hd
  have ht : rest.takeWhile Char.isDigit = [] := by
    cases rest with
    | nil => rfl
    | cons c rest => simp [hr c rfl]
  have hw : rest.dropWhile Char.isDigit = rest := by
    cases rest with
    | nil => rfl
    | cons c rest => simp [hr c rfl]
  simp only [spanDigits, List.takeWhile_append_of_pos hall, List.dropWhile_append_of_pos hall, ht,
    hw, List.append_nil]

theorem toDigits_all_isDigit (n : Nat) : (Nat.toDigits 10 n).all Char.isDigit = true :=
  (readNat_eq_some_iff.1 (readNat_toDigits n)).2.1

theorem notMem_toDigits {c : Char} (h : c.isDigit = false) (n : Nat) : c ∉ Nat.toDigits 10 n := by
  intro hc
  rw [List.all_eq_true.1 (toDigits_all_isDigit n) c hc] at h
  cases h

theorem notMem_toString {c : Char} (h : c.isDigit = false) (n : Nat) :
    c ∉ (toString n).toList := fun hc =>
  notMem_toDigits h n (by rwa [← Nat.toList_repr])

end Text

namespace Json

/-- Whether a text cannot go on with a number that stands before it. -/
def Ends (rest : List Char) : Prop :=
  ∀ c ∈ rest.head?, c.isDigit = false ∧ c ≠ '.' ∧ c ≠ 'e' ∧ c ≠ 'E'

theorem ends_nil : Ends [] := by
  simp [Ends]

theorem ends_cons {c : Char} (rest : List Char)
    (h : c.isDigit = false ∧ c ≠ '.' ∧ c ≠ 'e' ∧ c ≠ 'E') : Ends (c :: rest) := by
  simpa [Ends] using h

/-- The characters of an exponent. -/
def exponentText : Option (Bool × List Char) → List Char
  | none => []
  | some (negative, digits) => 'e' :: (if negative then '-' :: digits else digits)

/-- The characters from the decimal point on. -/
def fractionText (fraction : List Char) : List Char :=
  if fraction.isEmpty then [] else '.' :: fraction

namespace Literal

/-- Whether the parts of a literal are digits wherever there must be some, and no zero stands before
other digits. -/
structure WellFormed (literal : Literal) : Prop where
  whole_isDigit : literal.whole.all Char.isDigit = true
  whole_ne_nil : literal.whole ≠ []
  whole_zero : literal.whole.head? = some '0' → literal.whole.length ≤ 1
  fraction_isDigit : literal.fraction.all Char.isDigit = true
  exponent_isDigit : ∀ e ∈ literal.exponent, e.2 ≠ [] ∧ e.2.all Char.isDigit = true

theorem text_eq (literal : Literal) :
    literal.text = (if literal.negative then ['-'] else []) ++
      (literal.whole ++ (fractionText literal.fraction ++ exponentText literal.exponent)) := by
  simp only [text, fractionText, List.append_assoc]
  rcases literal.exponent with _ | ⟨negative, digits⟩ <;> rfl

end Literal

theorem readExponent_of_ends {rest : List Char} (h : Ends rest) :
    readExponent rest = some (none, rest) := by
  cases rest with
  | nil => rfl
  | cons c rest =>
    obtain ⟨-, -, he, hE⟩ := h c rfl
    simp [readExponent, he, hE]

/-- The spellings of an exponent: a letter in either case, perhaps a sign, and digits. -/
inductive SpellsExponent : Option (Bool × List Char) → List Char → Prop
  | missing : SpellsExponent none []
  | present {e : Char} {sign digits : List Char} (he : e = 'e' ∨ e = 'E')
      (hs : sign ∈ [[], ['+'], ['-']]) (hn : digits ≠ []) (hd : digits.all Char.isDigit = true) :
      SpellsExponent (some (sign == ['-'], digits)) (e :: (sign ++ digits))

theorem spells_exponentText {exponent : Option (Bool × List Char)}
    (h : ∀ e ∈ exponent, e.2 ≠ [] ∧ e.2.all Char.isDigit = true) :
    SpellsExponent exponent (exponentText exponent) := by
  rcases exponent with _ | ⟨negative, digits⟩
  · exact .missing
  · obtain ⟨hn, hd⟩ := h _ rfl
    cases negative with
    | true =>
      have hminus : ['-'] ∈ [[], ['+'], ['-']] := by decide
      exact .present (.inl rfl) hminus hn hd
    | false =>
      have hplain : ([] : List Char) ∈ [[], ['+'], ['-']] := by decide
      exact .present (.inl rfl) hplain hn hd

theorem splitSign_append_of_head {sign body : List Char} (hs : sign ∈ [[], ['+'], ['-']])
    (hhead : ∀ c ∈ body.head?, c ≠ '+' ∧ c ≠ '-') :
    Binary64.splitSign (sign ++ body) = (sign == ['-'], body) := by
  simp only [List.mem_cons, List.not_mem_nil, or_false] at hs
  rcases hs with rfl | rfl | rfl
  · rw [List.nil_append, Binary64.splitSign.eq_def]
    split
    · exact absurd rfl (hhead '-' rfl).2
    · exact absurd rfl (hhead '+' rfl).1
    · rfl
  · rfl
  · rfl

theorem head?_digits_append {digits : List Char} (hn : digits ≠ [])
    (hd : digits.all Char.isDigit = true) (rest : List Char) :
    ∀ c ∈ (digits ++ rest).head?, c ≠ '+' ∧ c ≠ '-' := by
  cases digits with
  | nil => exact absurd rfl hn
  | cons d digits =>
    have hdigit : d.isDigit = true := List.all_eq_true.1 hd d List.mem_cons_self
    rintro c ⟨⟩
    constructor
    · rintro rfl
      cases hdigit
    · rintro rfl
      cases hdigit

theorem splitSign_append {sign digits : List Char} (hs : sign ∈ [[], ['+'], ['-']])
    (hn : digits ≠ []) (hd : digits.all Char.isDigit = true) (rest : List Char) :
    Binary64.splitSign (sign ++ (digits ++ rest)) = (sign == ['-'], digits ++ rest) :=
  splitSign_append_of_head hs (head?_digits_append hn hd rest)

theorem exists_sign (text : List Char) :
    ∃ sign ∈ [[], ['+'], ['-']], text = sign ++ (Binary64.splitSign text).2 ∧
      (Binary64.splitSign text).1 = (sign == ['-']) := by
  rw [Binary64.splitSign.eq_def]
  split
  · exact ⟨['-'], by decide, rfl, rfl⟩
  · exact ⟨['+'], by decide, rfl, rfl⟩
  · exact ⟨[], by decide, rfl, rfl⟩

section Exponents

variable {exponent : Option (Bool × List Char)} {text rest : List Char}

theorem readExponent_append (h : SpellsExponent exponent text) (hr : Ends rest) :
    readExponent (text ++ rest) = some (exponent, rest) := by
  cases h with
  | missing => exact readExponent_of_ends hr
  | present he hs hn hd =>
    have hsign := splitSign_append hs hn hd rest
    have hspan := Text.spanDigits_append_of_head hd fun c hc => (hr c hc).1
    simp [readExponent, he, hsign, hspan, hn]

theorem head?_append_of_spells (h : SpellsExponent exponent text) (hr : Ends rest) :
    ∀ c ∈ (text ++ rest).head?, c.isDigit = false ∧ c ≠ '.' := by
  cases h with
  | missing => exact fun c hc => ⟨(hr c hc).1, (hr c hc).2.1⟩
  | present he =>
    rcases he with rfl | rfl <;> simp [Char.isDigit]

theorem spells_of_readExponent (h : readExponent text = some (exponent, rest)) :
    ∃ spelled, text = spelled ++ rest ∧ SpellsExponent exponent spelled := by
  rw [readExponent.eq_def] at h
  split at h
  · cases h
    exact ⟨[], rfl, .missing⟩
  · next e text =>
    obtain ⟨sign, hs, htext, hneg⟩ := exists_sign text
    split_ifs at h with he
    · simp only at h
      split_ifs at h with hn
      cases h
      rw [hneg]
      refine ⟨_, ?_, .present he hs (by simpa using hn) (Text.all_isDigit_spanDigits _)⟩
      rw [List.cons_append, List.append_assoc, Text.spanDigits_append, ← htext]
    · cases h
      exact ⟨[], rfl, .missing⟩

end Exponents

theorem readFraction_text {fraction rest : List Char} (h : fraction.all Char.isDigit = true)
    (hr : ∀ c ∈ rest.head?, c.isDigit = false ∧ c ≠ '.') :
    readFraction (fractionText fraction ++ rest) = some (fraction, rest) := by
  unfold fractionText
  split_ifs with hf
  · have hf : fraction = [] := by simpa using hf
    subst hf
    cases rest with
    | nil => rfl
    | cons c rest =>
      obtain ⟨-, hc⟩ := hr c rfl
      rw [List.nil_append, readFraction]
      simpa using hc
  · have hspan := Text.spanDigits_append_of_head h fun c hc => (hr c hc).1
    simp [readFraction, hspan, hf]

/-- What a text is after its sign, with a mark for a minus. -/
def numberSign : List Char → Bool × List Char
  | '-' :: text => (true, text)
  | text => (false, text)

theorem numberSign_append {whole : List Char} (hn : whole ≠ [])
    (hd : whole.all Char.isDigit = true) (negative : Bool) (rest : List Char) :
    numberSign ((if negative then ['-'] else []) ++ (whole ++ rest)) =
      (negative, whole ++ rest) := by
  cases negative with
  | true => rfl
  | false =>
    cases whole with
    | nil => exact absurd rfl hn
    | cons d whole =>
      have hd : d.isDigit = true := by simp_all
      simp only [Bool.false_eq_true, ↓reduceIte, List.nil_append, List.cons_append]
      rw [numberSign]
      rintro text ⟨⟩
      simp [Char.isDigit] at hd

/-- The reader of numbers with its parts by name. -/
theorem readNumber_eq (text : List Char) :
    readNumber text =
      let whole := Text.spanDigits (numberSign text).2
      if whole.1.isEmpty || (whole.1.head? == some '0' && 1 < whole.1.length) then none
      else (readFraction whole.2).bind fun fraction =>
        (readExponent fraction.2).bind fun exponent =>
          some (⟨(numberSign text).1, whole.1, fraction.1, exponent.1⟩, exponent.2) := by
  unfold readNumber numberSign
  rfl

theorem fraction_of_readFraction {text fraction rest : List Char}
    (h : readFraction text = some (fraction, rest)) :
    text = fractionText fraction ++ rest ∧ fraction.all Char.isDigit = true := by
  rw [readFraction.eq_def] at h
  split at h
  · simp only at h
    split_ifs at h with hn
    cases h
    refine ⟨?_, Text.all_isDigit_spanDigits _⟩
    rw [fractionText, if_neg hn, List.cons_append, Text.spanDigits_append]
  · cases h
    exact ⟨rfl, rfl⟩

theorem sign_of_numberSign (text : List Char) :
    text = (if (numberSign text).1 then ['-'] else []) ++ (numberSign text).2 := by
  rw [numberSign.eq_def]
  split <;> rfl

/-- Whether a text is read as a number, and what follows it is left over unless it continues the
number. -/
def ReadsNumber (literal : Literal) (text : List Char) : Prop :=
  ∀ rest, Ends rest → readNumber (text ++ rest) = some (literal, rest)

/-- A number is read from its parts, however its exponent is spelled. -/
theorem readsNumber_parts {negative : Bool} {whole fraction spelled : List Char}
    {exponent : Option (Bool × List Char)} (hw : whole.all Char.isDigit = true)
    (hz : (whole.isEmpty || (whole.head? == some '0' && decide (1 < whole.length))) = false)
    (hf : fraction.all Char.isDigit = true) (he : SpellsExponent exponent spelled) :
    ReadsNumber ⟨negative, whole, fraction, exponent⟩
      ((if negative then ['-'] else []) ++ (whole ++ (fractionText fraction ++ spelled))) := by
  intro rest hr
  have hn : whole ≠ [] := by
    rintro rfl
    cases hz
  have hafter := head?_append_of_spells he hr
  have hfraction := readFraction_text hf hafter
  have hexponent := readExponent_append he hr
  have hdot : ∀ c ∈ (fractionText fraction ++ (spelled ++ rest)).head?, c.isDigit = false := by
    unfold fractionText
    split_ifs
    · exact fun c hc => (hafter c hc).1
    · simp
  have hspan := Text.spanDigits_append_of_head hw hdot
  have hsign := numberSign_append hn hw negative (fractionText fraction ++ (spelled ++ rest))
  rw [readNumber_eq]
  simp only [List.append_assoc, hsign, hspan, hz, hfraction, hexponent, Bool.false_eq_true,
    ↓reduceIte, Option.bind_some]

theorem readsNumber_text {literal : Literal} (h : literal.WellFormed) :
    ReadsNumber literal literal.text := by
  have hzero : (literal.whole.isEmpty ||
      (literal.whole.head? == some '0' && decide (1 < literal.whole.length))) = false := by
    simp only [Bool.or_eq_false_iff, List.isEmpty_eq_false_iff, Bool.and_eq_false_imp,
      beq_iff_eq, decide_eq_false_iff_not, Nat.not_lt]
    exact ⟨h.whole_ne_nil, h.whole_zero⟩
  rw [Literal.text_eq]
  exact readsNumber_parts h.whole_isDigit hzero h.fraction_isDigit
    (spells_exponentText h.exponent_isDigit)

/-- What is read as a number is read as that number wherever it stands. -/
theorem readsNumber_of_readNumber {literal : Literal} {text rest : List Char}
    (h : readNumber text = some (literal, rest)) :
    ∃ read, text = read ++ rest ∧ ReadsNumber literal read := by
  have hsign := sign_of_numberSign text
  have hspan := Text.spanDigits_append (numberSign text).2
  have hdigits := Text.all_isDigit_spanDigits (numberSign text).2
  rw [readNumber_eq] at h
  generalize Text.spanDigits (numberSign text).2 = whole at h hspan hdigits
  simp only at h
  split_ifs at h with hz
  obtain ⟨⟨fraction, after⟩, hf, h⟩ := Option.bind_eq_some_iff.1 h
  obtain ⟨⟨exponent, rest'⟩, he, h⟩ := Option.bind_eq_some_iff.1 h
  cases h
  obtain ⟨hfraction, hfd⟩ := fraction_of_readFraction hf
  obtain ⟨spelled, hspelled, hs⟩ := spells_of_readExponent he
  refine ⟨_, ?_, readsNumber_parts hdigits (Bool.eq_false_iff.2 hz) hfd hs⟩
  simp only at hspelled hfraction
  rw [List.append_assoc, List.append_assoc, List.append_assoc, ← hspelled, ← hfraction, hspan,
    ← hsign]

namespace Literal

theorem head?_toDigits_ne_zero {n : Nat} (h : 0 < n) :
    (Nat.toDigits 10 n).head? ≠ some '0' := by
  induction n using Nat.strongRecOn with
  | _ n ih =>
    by_cases hn : n < 10
    · rw [Nat.toDigits_of_lt_base hn]
      have hdigit : ∀ k < 10, 0 < k → Nat.digitChar k ≠ '0' := by decide
      simpa using hdigit n hn h
    · have hq : 0 < n / 10 := Nat.div_pos (by omega) (by decide)
      have hr : n % 10 < 10 := Nat.mod_lt n (by decide)
      have hdm : 10 * (n / 10) + n % 10 = n := Nat.div_add_mod n 10
      rw [← hdm, ← Nat.toDigits_append_toDigits (by decide) hq hr]
      have hne := ih (n / 10) (by omega) hq
      cases hc : Nat.toDigits 10 (n / 10) with
      | nil => exact absurd hc Nat.toDigits_ne_nil
      | cons d digits => simpa [hc] using hne

theorem wellFormed_ofInt (n : Int) : (ofInt n).WellFormed where
  whole_isDigit := Text.toDigits_all_isDigit _
  whole_ne_nil := Nat.toDigits_ne_nil
  whole_zero h := by
    rcases Nat.eq_zero_or_pos n.natAbs with hn | hn
    · simp [ofInt, hn]
    · exact absurd h (head?_toDigits_ne_zero hn)
  fraction_isDigit := rfl
  exponent_isDigit := by simp [ofInt]

/-- An integer of 64 bits, with or without a sign, is what its literal denotes. -/
theorem value?_ofInt {n : Int} (hl : -0x8000000000000000 ≤ n) (hh : n < 0x10000000000000000) :
    (ofInt n).value? = some (.integer n) := by
  have hd : Text.ofDigits (ofInt n).whole = n.natAbs := Text.ofDigits_toDigits _
  have hp : ((ofInt n).fraction.isEmpty && (ofInt n).exponent.isNone) = true := rfl
  have hs : (ofInt n).negative = decide (n < 0) := rfl
  simp only [value?, hd, hp, hs, ↓reduceIte, decide_eq_true_eq]
  split_ifs with h1 h2 h3
  · rw [show -(n.natAbs : Int) = n by omega]
  · omega
  · rw [show (n.natAbs : Int) = n by omega]
  · omega

end Literal

end Json

end Appraisal
