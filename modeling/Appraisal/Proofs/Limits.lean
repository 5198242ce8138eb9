import Appraisal.Web.Address
import Mathlib.Data.Nat.Digits.Defs

/-!
# What a limit asks for

A query asks for a number of entries by a numeral: decimal digits, however many, after a sign or
none, and with white space around. What is read of a text is exactly what it denotes as a numeral
(`readInt_eq_some_iff`), so that a list is as long as its numeral says, held between one and the
greatest length, and of the usual length where there is no numeral or it takes more than 64 bits
(`limit_asked`).
-/

namespace Appraisal

namespace Text

/-- The number that digits denote, each by its place. -/
def placeValue (digits : List Char) : ℕ :=
  Nat.ofDigits 10 (digits.reverse.map fun d => d.toNat - '0'.toNat)

/-- An integer in decimal digits, at least one, after a sign or none. -/
inductive Numeral : List Char → ℤ → Prop
  | plain {digits : List Char} (some : digits ≠ []) (only : digits.all Char.isDigit = true) :
    Numeral digits (placeValue digits)
  | plus {digits : List Char} (some : digits ≠ []) (only : digits.all Char.isDigit = true) :
    Numeral ('+' :: digits) (placeValue digits)
  | minus {digits : List Char} (some : digits ≠ []) (only : digits.all Char.isDigit = true) :
    Numeral ('-' :: digits) (-placeValue digits)

variable {text digits : List Char} {n : ℕ} {i : ℤ}

theorem digitsFrom_eq (value : ℕ) (digits : List Char) :
    digitsFrom value digits = value * 10 ^ digits.length + placeValue digits := by
  induction digits generalizing value with
  | nil => simp [digitsFrom, placeValue]
  | cons d digits ih =>
    have hfirst : placeValue (d :: digits) =
        placeValue digits + 10 ^ digits.length * (d.toNat - 48) := by
      simp [placeValue, Nat.ofDigits_append]
    have hnext : digitsFrom value (d :: digits) =
        digitsFrom (value * 10 + (d.toNat - 48)) digits := rfl
    rw [hnext, ih, hfirst, List.length_cons]
    ring

theorem ofDigits_eq (digits : List Char) : ofDigits digits = placeValue digits := by
  rw [ofDigits, digitsFrom_eq, Nat.zero_mul, Nat.zero_add]

theorem readNat_eq_some (hn : digits ≠ []) (hd : digits.all Char.isDigit = true) :
    readNat digits = some (placeValue digits) :=
  readNat_eq_some_iff.2 ⟨hn, hd, ofDigits_eq digits⟩

theorem placeValue_of_readNat (h : readNat digits = some n) :
    digits ≠ [] ∧ digits.all Char.isDigit = true ∧ n = placeValue digits := by
  obtain ⟨hn, hd, hv⟩ := readNat_eq_some_iff.1 h
  exact ⟨hn, hd, by rw [← hv, ofDigits_eq]⟩

theorem readInt_minus (digits : List Char) :
    readInt ('-' :: digits) = (readNat digits).map fun n : ℕ => -(n : ℤ) := by
  rw [readInt]
  cases readNat digits <;> rfl

/-- A numeral is read as the integer that it denotes, and nothing else is read. -/
theorem readInt_eq_some_iff : readInt text = some i ↔ Numeral text i := by
  constructor
  · intro h
    rw [readInt.eq_def] at h
    split at h
    · next digits =>
      replace h : readInt ('-' :: digits) = some i := h
      rw [readInt_minus] at h
      obtain ⟨n, hread, rfl⟩ := Option.map_eq_some_iff.1 h
      obtain ⟨hn, hd, rfl⟩ := placeValue_of_readNat hread
      exact .minus hn hd
    · obtain ⟨n, hread, rfl⟩ := Option.map_eq_some_iff.1 h
      obtain ⟨hn, hd, rfl⟩ := placeValue_of_readNat hread
      exact .plus hn hd
    · obtain ⟨n, hread, rfl⟩ := Option.map_eq_some_iff.1 h
      obtain ⟨hn, hd, rfl⟩ := placeValue_of_readNat hread
      exact .plain hn hd
  · intro h
    cases h with
    | plain hn hd =>
      rw [readInt.eq_def]
      split
      -- no digit is a sign
      · rw [List.all_cons, Bool.and_eq_true] at hd
        exact absurd hd.1 (by decide)
      · rw [List.all_cons, Bool.and_eq_true] at hd
        exact absurd hd.1 (by decide)
      · rw [readNat_eq_some hn hd]
        rfl
    | plus hn hd =>
      rw [readInt, readNat_eq_some hn hd]
      rfl
    | minus hn hd =>
      rw [readInt_minus, readNat_eq_some hn hd]
      rfl

end Text

namespace Web

/-- Whether a text asks for so many entries: it is a numeral between white space, and the number
fits in 64 bits with a sign. -/
structure Asks (text : String) (n : ℤ) : Prop where
  numeral : Text.Numeral (Text.trim text.toList) n
  low : -2 ^ 63 ≤ n
  high : n < 2 ^ 63

variable {text other : String} {m n : ℤ}

theorem readLimit?_eq_some_iff : readLimit? text = some n ↔ Asks text n := by
  rw [readLimit?, Option.filter_eq_some_iff, Text.readInt_eq_some_iff, decide_eq_true_eq]
  exact ⟨fun ⟨hn, hl, hh⟩ => ⟨hn, by omega, by omega⟩, fun h => ⟨h.numeral, h.low, h.high⟩⟩

theorem limit_of_asks (h : Asks text n) : (limit (some text) : ℤ) = min (max n 1) 100 := by
  rw [limit, Option.bind_some, readLimit?_eq_some_iff.2 h]
  show ((min (max n 1) ((100 : ℕ) : ℤ)).toNat : ℤ) = _
  omega

theorem limit_of_not_asks (h : ∀ n, ¬ Asks text n) : limit (some text) = 10 := by
  have hnone : readLimit? text = none := by
    rw [Option.eq_none_iff_forall_ne_some]
    exact fun n hn => h n (readLimit?_eq_some_iff.1 hn)
  rw [limit, Option.bind_some, hnone]
  rfl

theorem limit_bounds (asked : Option String) : 1 ≤ limit asked ∧ limit asked ≤ 100 := by
  cases asked with
  | none => decide
  | some text =>
    by_cases h : ∃ n, Asks text n
    · obtain ⟨n, hn⟩ := h
      have hlimit := limit_of_asks hn
      omega
    · rw [limit_of_not_asks (not_exists.1 h)]
      decide

/-- A list is as long as it is asked for, but neither empty nor longer than a hundred, and has ten
entries where no number is asked for that fits in 64 bits. Who asks for more gets no fewer. -/
theorem limit_asked :
    limit none = 10 ∧
    (∀ text n, Asks text n → (limit (some text) : ℤ) = min (max n 1) 100) ∧
    (∀ text, (∀ n, ¬ Asks text n) → limit (some text) = 10) ∧
    (∀ asked, 1 ≤ limit asked ∧ limit asked ≤ 100) ∧
    ∀ text other m n, Asks text m → Asks other n → m ≤ n →
      limit (some text) ≤ limit (some other) := by
  refine ⟨rfl, fun _ _ => limit_of_asks, fun _ => limit_of_not_asks, limit_bounds, ?_⟩
  intro text other m n hm hn hle
  have hless := limit_of_asks hm
  have hmore := limit_of_asks hn
  omega

/-- Numerals at either end of 64 bits, one beyond, with leading zeros, and a sign alone. -/
theorem limit_asked_edges :
    limit (some "\t-9223372036854775808 ") = 1 ∧ limit (some "-9223372036854775809") = 10 ∧
      limit (some "+0009223372036854775807") = 100 ∧ limit (some "9223372036854775808") = 10 ∧
      limit (some "0000000000000000000025") = 25 ∧ limit (some "+") = 10 := by
  obtain ⟨-, hasked, hunasked, -⟩ := limit_asked
  have hasks : ∀ text n, readLimit? text = some n → limit (some text) = (min (max n 1) 100).toNat :=
    fun text n h => by
      rw [← hasked text n (readLimit?_eq_some_iff.1 h)]
      rfl
  have hnot : ∀ text, readLimit? text = none → limit (some text) = 10 := fun text h =>
    hunasked text fun n hn => by
      rw [readLimit?_eq_some_iff.2 hn] at h
      cases h
  exact ⟨hasks _ (-2 ^ 63) (by decide), hnot _ (by decide), hasks _ (2 ^ 63 - 1) (by decide),
    hnot _ (by decide), hasks _ 25 (by decide), hnot _ (by decide)⟩

end Web

end Appraisal
