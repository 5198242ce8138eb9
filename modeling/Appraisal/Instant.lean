/-!
# Instants

A point in time as seconds and nanoseconds since the start of 1970, its date in the Gregorian
calendar, and its text by RFC 3339. The calendar is extended to all years, also before the first.
-/

namespace Appraisal

/-- A point in time in coordinated universal time. A count of nanoseconds of a whole second or
more stands for a leap second. -/
structure Instant where
  seconds : Int
  nanos : Nat
deriving DecidableEq, Repr

structure Date where
  year : Int
  month : Nat
  day : Nat
deriving DecidableEq, Repr

/-- The date that lies so many days after the first of January 1970. Years are counted from March,
in cycles of 400 years with 146097 days. -/
def Date.ofDays (days : Int) : Date :=
  let shifted := days + 719468
  let cycle := shifted / 146097
  let dayOfCycle := (shifted % 146097).toNat
  let yearOfCycle :=
    (dayOfCycle - dayOfCycle / 1460 + dayOfCycle / 36524 - dayOfCycle / 146096) / 365
  let dayOfYear := dayOfCycle - (365 * yearOfCycle + yearOfCycle / 4 - yearOfCycle / 100)
  let month := (5 * dayOfYear + 2) / 153
  let day := dayOfYear - (153 * month + 2) / 5 + 1
  let year := cycle * 400 + yearOfCycle
  if month < 10 then ⟨year, month + 3, day⟩ else ⟨year + 1, month - 9, day⟩

/-- A number with zeros before it up to a width. -/
def zeroPadded (width n : Nat) : String :=
  let digits := Nat.toDigits 10 n
  String.ofList (List.replicate (width - digits.length) '0' ++ digits)

/-- A year in four digits; one outside 0 to 9999 has a sign and at least four digits. -/
def yearText (year : Int) : String :=
  if 0 ≤ year ∧ year ≤ 9999 then zeroPadded 4 year.toNat
  else (if year < 0 then "-" else "+") ++ zeroPadded 4 year.natAbs

/-- The fraction of a second in three, six or nine digits, as many as it needs. -/
def fractionText (nanos : Nat) : String :=
  if nanos = 0 then ""
  else if nanos % 1000000 = 0 then "." ++ zeroPadded 3 (nanos / 1000000)
  else if nanos % 1000 = 0 then "." ++ zeroPadded 6 (nanos / 1000)
  else "." ++ zeroPadded 9 nanos

namespace Instant

/-- The text of an instant by RFC 3339. -/
def text (t : Instant) : String :=
  let date := Date.ofDays (t.seconds / 86400)
  let second := (t.seconds % 86400).toNat
  yearText date.year ++ "-" ++ zeroPadded 2 date.month ++ "-" ++ zeroPadded 2 date.day ++ "T" ++
    zeroPadded 2 (second / 3600) ++ ":" ++ zeroPadded 2 (second / 60 % 60) ++ ":" ++
    zeroPadded 2 (second % 60 + t.nanos / 1000000000) ++ fractionText (t.nanos % 1000000000) ++
    "+00:00"

/-- The seconds from 1970 to the start of the year 2000. -/
def millennium : Int := 946684800

/-- The microseconds since the start of the year 2000, without their fraction. -/
def microseconds (t : Instant) : Int :=
  ((t.seconds - millennium) * 1000000000 + t.nanos).tdiv 1000

/-- The instant that lies so many microseconds after the start of the year 2000. -/
def ofMicroseconds (n : Int) : Instant :=
  ⟨millennium + n / 1000000, (n % 1000000).toNat * 1000⟩

theorem microseconds_ofMicroseconds (n : Int) : (ofMicroseconds n).microseconds = n := by
  have h : ((ofMicroseconds n).seconds - millennium) * 1000000000 + (ofMicroseconds n).nanos =
      n * 1000 := by
    simp only [ofMicroseconds, millennium]
    omega
  rw [microseconds, h, Int.mul_tdiv_cancel _ (by decide)]

/-- Whether the first instant is earlier than the second, or the same. -/
def le (s t : Instant) : Bool :=
  s.seconds < t.seconds || (s.seconds == t.seconds && s.nanos ≤ t.nanos)

end Instant

end Appraisal
