import Appraisal.Binary64.Decimal

/-!
# Numbers in JSON

A `Literal` is a number as it is written. Its `value?` is an integer when it is written as one and
fits in 64 bits, and otherwise a binary64 number. That number is not always the nearest one: the
leading digits that fit in 64 bits are converted first and then scaled by powers of ten.
-/

namespace Appraisal.Json

/-- A number as it is written: its digits before the point, those after it, and the exponent with
a mark for a negative one. -/
structure Literal where
  negative : Bool
  whole : List Char
  fraction : List Char
  exponent : Option (Bool × List Char)
deriving DecidableEq

/-- What a literal denotes. -/
inductive Number where
  | integer (n : Int)
  | real (x : Binary64)
deriving DecidableEq

namespace Literal

def ofInt (n : Int) : Literal := ⟨decide (n < 0), Nat.toDigits 10 n.natAbs, [], none⟩

/-- The characters a literal is written with. -/
def text (literal : Literal) : List Char :=
  (if literal.negative then ['-'] else []) ++ literal.whole ++
    (if literal.fraction.isEmpty then [] else '.' :: literal.fraction) ++
    match literal.exponent with
    | none => []
    | some (negative, digits) => 'e' :: (if negative then '-' :: digits else digits)

end Literal

/-- Takes digits as long as the number stays below `2 ^ 64`: the number, and how many digits were
left. -/
def keepDigits (value : Nat) : List Char → Nat × Nat
  | [] => (value, 0)
  | d :: digits =>
    if Text.digitsFrom value [d] < 0x10000000000000000 then
      keepDigits (Text.digitsFrom value [d]) digits
    else (value, digits.length + 1)

/-- A power of ten, rounded. -/
def powerOfTen (n : Nat) : Binary64 := Binary64.ofDecimal false 1 n

/-- A significand scaled by a power of ten, each step rounded; none when the result is too large
for a finite number. Powers below `10 ^ -308` take two divisions, after which nothing is left. -/
def scaled (significand : Nat) (exponent : Int) : Option Binary64 :=
  let start := Binary64.ofNat significand
  if significand = 0 then some start
  else if 308 < exponent then none
  else if 0 ≤ exponent then
    match start.mul (powerOfTen exponent.toNat) with
    | .infinite _ => none
    | x => some x
  else if -308 ≤ exponent then some (start.div (powerOfTen (-exponent).toNat))
  else if -616 ≤ exponent then
    some ((start.div (powerOfTen 308)).div (powerOfTen (-(exponent + 308)).toNat))
  else some (.finite false 0)

/-- The magnitude of a literal that is not a plain integer. -/
def Literal.magnitude? (literal : Literal) : Option Binary64 :=
  let (head, dropped) := keepDigits 0 literal.whole
  let (significand, left) := keepDigits head literal.fraction
  let start : Int := (dropped : Int) - (literal.fraction.length - left : Nat)
  match literal.exponent with
  | none => scaled significand start
  | some (negative, digits) =>
    let exponent : Int := Text.ofDigits digits
    scaled significand (if negative then start - exponent else start + exponent)

/-- What a literal denotes, none when it is too large for a finite number. A negative integer below
`-2 ^ 63`, and zero with a minus, are binary64 numbers. -/
def Literal.value? (literal : Literal) : Option Number :=
  let n := Text.ofDigits literal.whole
  let real := (literal.magnitude?).map fun x => Number.real (if literal.negative then x.neg else x)
  if literal.fraction.isEmpty && literal.exponent.isNone then
    if literal.negative then
      if 1 ≤ n ∧ n ≤ 0x8000000000000000 then some (.integer (-n)) else real
    else if n < 0x10000000000000000 then some (.integer n) else real
  else real

/-- The binary64 number nearest to what a literal denotes. -/
def Number.toBinary64 : Number → Binary64
  | .integer n => .ofInt n
  | .real x => x

end Appraisal.Json
