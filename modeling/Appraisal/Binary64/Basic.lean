/-!
# Binary64 numbers

A finite number is a sign and a count of units, the unit being the least positive number
`2 ^ -1074`. Every operation forms its exact result as a ratio of two natural numbers and rounds
it once, to the nearest number with ties going to an even count of spacings. The result of
`roundEven` lies within half a unit by `roundEven_le` and `le_roundEven`.
-/

namespace Appraisal

/-- A number in IEEE 754 binary64, with the payload of its not-a-number values. -/
inductive Binary64 where
  | nan (negative : Bool) (payload : Nat)
  | infinite (negative : Bool)
  | finite (negative : Bool) (units : Nat)
deriving DecidableEq, Repr

namespace Binary64

def pow2 (n : Nat) : Nat := Nat.pow 2 n

/-- The units that make up the number one. -/
def one : Nat := pow2 1074

/-- The first count of units that is too large for a finite number. -/
def overflow : Nat := pow2 2098

/-- The bit of a payload that marks a quiet not-a-number value. -/
def quietBit : Nat := pow2 51

/-- The quotient rounded to the nearest integer, a tie to the even one. -/
def roundEven (num den : Nat) : Nat :=
  let quotient := num / den
  let rest := num % den
  if 2 * rest < den then quotient
  else if den < 2 * rest then quotient + 1
  else quotient + quotient % 2

theorem roundEven_le {num den : Nat} (h : 0 < den) :
    2 * (roundEven num den * den) ≤ 2 * num + den := by
  have hd := Nat.div_add_mod num den
  have hm := Nat.mod_lt num h
  have hc := Nat.mul_comm (num / den) den
  simp only [roundEven]
  split
  · omega
  · split
    · rw [Nat.add_mul]
      omega
    · have : num / den % 2 * den ≤ den := by
        rcases Nat.mod_two_eq_zero_or_one (num / den) with h | h <;> simp [h]
      rw [Nat.add_mul]
      omega

theorem le_roundEven {num den : Nat} (h : 0 < den) :
    2 * num ≤ 2 * (roundEven num den * den) + den := by
  have hd := Nat.div_add_mod num den
  have hm := Nat.mod_lt num h
  have hc := Nat.mul_comm (num / den) den
  simp only [roundEven]
  split
  · omega
  · split <;> rw [Nat.add_mul] <;> omega

theorem roundEven_mul_self (n : Nat) {den : Nat} (h : 0 < den) :
    roundEven (n * den) den = n := by
  simp [roundEven, h]

/-- The distance between neighbouring numbers of about this many units. -/
def spacing (units : Nat) : Nat := pow2 (units.log2 - 52)

/-- The count of units of the number nearest to a ratio of units. -/
def nearest (num den : Nat) : Nat :=
  roundEven num (den * spacing (num / den)) * spacing (num / den)

/-- The number nearest to a ratio of units. -/
def ofRatio (negative : Bool) (num den : Nat) : Binary64 :=
  if nearest num den < overflow then .finite negative (nearest num den) else .infinite negative

def ofNat (n : Nat) : Binary64 := ofRatio false (n * one) 1

def ofInt (n : Int) : Binary64 := ofRatio (decide (n < 0)) (n.natAbs * one) 1

/-- What an operation without a result gives. -/
def invalid : Binary64 := .nan true quietBit

/-- A not-a-number operand, passed on as a quiet one. -/
def quiet (negative : Bool) (payload : Nat) : Binary64 := .nan negative (payload ||| quietBit)

def neg : Binary64 → Binary64
  | .nan s p => .nan (!s) p
  | .infinite s => .infinite (!s)
  | .finite s k => .finite (!s) k

@[simp] theorem neg_neg (x : Binary64) : x.neg.neg = x := by cases x <;> simp [neg]

def mul : Binary64 → Binary64 → Binary64
  | .nan s p, _ => quiet s p
  | _, .nan s p => quiet s p
  | .infinite s, .infinite t => .infinite (s != t)
  | .infinite s, .finite t k => if k = 0 then invalid else .infinite (s != t)
  | .finite s k, .infinite t => if k = 0 then invalid else .infinite (s != t)
  | .finite s j, .finite t k => ofRatio (s != t) (j * k) one

def div : Binary64 → Binary64 → Binary64
  | .nan s p, _ => quiet s p
  | _, .nan s p => quiet s p
  | .infinite _, .infinite _ => invalid
  | .infinite s, .finite t _ => .infinite (s != t)
  | .finite s _, .infinite t => .finite (s != t) 0
  | .finite s j, .finite t k =>
    if k = 0 then if j = 0 then invalid else .infinite (s != t)
    else ofRatio (s != t) (j * one) k

def add : Binary64 → Binary64 → Binary64
  | .nan s p, _ => quiet s p
  | _, .nan s p => quiet s p
  | .infinite s, .infinite t => if s = t then .infinite s else invalid
  | .infinite s, .finite _ _ => .infinite s
  | .finite _ _, .infinite t => .infinite t
  | .finite s j, .finite t k =>
    if s = t then ofRatio s (j + k) 1
    else if k < j then ofRatio s (j - k) 1
    else if j < k then ofRatio t (k - j) 1
    else .finite false 0

/-- The nearest integer, a half going away from zero. -/
def round : Binary64 → Binary64
  | .nan s p => quiet s p
  | .infinite s => .infinite s
  | .finite s k => .finite s ((2 * k + one) / (2 * one) * one)

/-- The whole part of a number held between two bounds; what is no number counts as zero. -/
def clampNat (low high : Nat) : Binary64 → Nat
  | .nan _ _ => 0
  | .infinite s => if s then low else high
  | .finite s k => if s then low else min high (max low (k / one))

end Binary64

end Appraisal
