import Appraisal.Binary64.Basic
import Appraisal.Text.Digits

/-!
# Binary64 numbers from decimal text

`ofDecimal` is the number nearest to an integer times a power of ten. `read?` reads a decimal
numeral, with an optional point and exponent, or the name of an infinity or of no number.
-/

namespace Appraisal.Binary64

/-- At least the number of decimal digits of a number: its number of binary digits. -/
def digitBound (n : Nat) : Nat := n.log2 + 1

/-- The number nearest to `digits * 10 ^ exponent`. Far beyond the range of the format the powers
of ten are not formed: the result is known to be infinite or zero. -/
def ofDecimal (negative : Bool) (digits : Nat) (exponent : Int) : Binary64 :=
  if digits = 0 then .finite negative 0
  else if 310 < exponent then .infinite negative
  else if exponent + digitBound digits < -1080 then .finite negative 0
  else if 0 ≤ exponent then ofRatio negative (digits * Nat.pow 10 exponent.toNat * one) 1
  else ofRatio negative (digits * one) (Nat.pow 10 (-exponent).toNat)

/-- The sign at the head of a numeral, true for a minus, and what follows it. -/
def splitSign : List Char → Bool × List Char
  | '-' :: text => (true, text)
  | '+' :: text => (false, text)
  | text => (false, text)

/-- The exponent a numeral ends in, zero when nothing is left of it. -/
def readExponent : List Char → Option Int
  | [] => some 0
  | e :: text =>
    if e = 'e' || e = 'E' then
      let (negative, digits) := splitSign text
      (Text.readNat digits).map fun n => if negative then -(n : Int) else n
    else none

/-- A numeral without its sign: digits with an optional point among them, at least one digit, and
an optional exponent. -/
def readUnsigned (negative : Bool) (text : List Char) : Option Binary64 :=
  let (whole, rest) := Text.spanDigits text
  let (fraction, rest) := match rest with
    | '.' :: rest => Text.spanDigits rest
    | _ => ([], rest)
  if whole.isEmpty && fraction.isEmpty then none
  else (readExponent rest).map fun exponent =>
    ofDecimal negative (Text.ofDigits (whole ++ fraction)) (exponent - fraction.length)

/-- Reads a numeral, or one of the words `inf`, `infinity` and `nan` in any case. -/
def read? (text : List Char) : Option Binary64 :=
  let (negative, body) := splitSign text
  let word := body.map Char.toLower
  if word = "inf".toList || word = "infinity".toList then some (.infinite negative)
  else if word = "nan".toList then some (.nan negative quietBit)
  else readUnsigned negative body

end Appraisal.Binary64
