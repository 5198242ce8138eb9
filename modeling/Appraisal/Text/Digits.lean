/-!
# Decimal digits

Natural numbers and integers written in ASCII decimal digits. By `readNat_toDigits` a number is
read back from its digits.
-/

namespace Appraisal.Text

/-- The number that a run of digits continues, from what the digits before it denote. -/
def digitsFrom (value : Nat) (digits : List Char) : Nat :=
  digits.foldl (fun n d => n * 10 + (d.toNat - 48)) value

def ofDigits (digits : List Char) : Nat := digitsFrom 0 digits

theorem digitsFrom_append (value : Nat) (s t : List Char) :
    digitsFrom value (s ++ t) = digitsFrom (digitsFrom value s) t :=
  List.foldl_append

theorem ofDigits_toDigits (n : Nat) : ofDigits (Nat.toDigits 10 n) = n := by
  induction n using Nat.strongRecOn with
  | _ n ih =>
    by_cases h : n < 10
    · rw [Nat.toDigits_of_lt_base h]
      simp [ofDigits, digitsFrom, Nat.toNat_digitChar_of_lt_ten h]
    · have hq : 0 < n / 10 := Nat.div_pos (by omega) (by decide)
      have hr : n % 10 < 10 := Nat.mod_lt n (by decide)
      have hn : 10 * (n / 10) + n % 10 = n := Nat.div_add_mod n 10
      rw [← hn, ← Nat.toDigits_append_toDigits (by decide) hq hr, ofDigits, digitsFrom_append,
        Nat.toDigits_of_lt_base hr, ← ofDigits, ih (n / 10) (by omega)]
      simp [digitsFrom, Nat.toNat_digitChar_of_lt_ten hr]
      omega

/-- The digits a text starts with, and the rest. -/
def spanDigits (text : List Char) : List Char × List Char :=
  (text.takeWhile Char.isDigit, text.dropWhile Char.isDigit)

@[simp] theorem spanDigits_append (text : List Char) :
    (spanDigits text).1 ++ (spanDigits text).2 = text :=
  List.takeWhile_append_dropWhile

theorem all_isDigit_spanDigits (text : List Char) :
    (spanDigits text).1.all Char.isDigit = true := by
  simp [spanDigits, List.all_takeWhile]

/-- A number written in one or more digits and nothing else. -/
def readNat (text : List Char) : Option Nat :=
  if text.isEmpty || !text.all Char.isDigit then none else some (ofDigits text)

theorem readNat_eq_some_iff {text : List Char} {n : Nat} :
    readNat text = some n ↔
      text ≠ [] ∧ text.all Char.isDigit = true ∧ ofDigits text = n := by
  cases h : text.isEmpty <;> cases ha : text.all Char.isDigit <;> simp_all [readNat]

@[simp] theorem readNat_toDigits (n : Nat) : readNat (Nat.toDigits 10 n) = some n := by
  rw [readNat_eq_some_iff]
  refine ⟨Nat.toDigits_ne_nil, ?_, ofDigits_toDigits n⟩
  rw [List.all_eq_true]
  exact fun c hc => Nat.isDigit_of_mem_toDigits (by decide) (by decide) hc

/-- An integer written in one or more digits after at most one sign. -/
def readInt : List Char → Option Int
  | '-' :: text => (readNat text).map fun n => -(n : Int)
  | '+' :: text => (readNat text).map Int.ofNat
  | text => (readNat text).map Int.ofNat

end Appraisal.Text
