import LedgerBench.Text.Numeral
/-!
Points in time and their text.

A timestamp counts milliseconds since 1970-01-01T00:00:00Z. `Date.ofDays` finds the day in the
proleptic Gregorian calendar: 400 years have 146097 days, and a year is counted from the first of
March so that the leap day is its last. `text` is the internet date form in universal time.
-/

namespace LedgerBench

/-- A point in time: milliseconds since the start of 1970 in universal time. -/
structure Timestamp where
  millis : Int
  deriving DecidableEq, Repr, Inhabited

/-- A day of the proleptic Gregorian calendar. -/
structure Date where
  year : Int
  month : Nat
  day : Nat
  deriving DecidableEq, Repr

/-- The day that lies the given number of days after 1970-01-01. -/
def Date.ofDays (days : Int) : Date :=
  let shifted := days + 719468
  let era := shifted / 146097
  let dayOfEra := (shifted % 146097).toNat
  let yearOfEra := (dayOfEra - dayOfEra / 1460 + dayOfEra / 36524 - dayOfEra / 146096) / 365
  let dayOfYear := dayOfEra - (365 * yearOfEra + yearOfEra / 4 - yearOfEra / 100)
  let marchMonth := (5 * dayOfYear + 2) / 153
  let day := dayOfYear - (153 * marchMonth + 2) / 5 + 1
  let month := if marchMonth < 10 then marchMonth + 3 else marchMonth - 9
  let year := (yearOfEra : Int) + era * 400 + (if month ≤ 2 then 1 else 0)
  { year, month, day }

/-- A year in four digits; one above 9999 or below zero has a sign and at least four digits. -/
def Date.yearText (year : Int) : String :=
  if year < 0 then "-" ++ Text.zeroPadded 4 year.natAbs
  else if 9999 < year then "+" ++ Text.zeroPadded 5 year.natAbs
  else Text.zeroPadded 4 year.natAbs

def Date.text (d : Date) : String :=
  Date.yearText d.year ++ "-" ++ Text.zeroPadded 2 d.month ++ "-" ++ Text.zeroPadded 2 d.day

namespace Timestamp

def perDay : Nat := 86400000

/-- Date and time of day in universal time; the milliseconds are written when they are not zero. -/
def text (t : Timestamp) : String :=
  let ofDay := (t.millis % (perDay : Int)).toNat
  let fraction := ofDay % 1000
  let secs := ofDay / 1000
  (Date.ofDays (t.millis / (perDay : Int))).text ++ "T" ++ Text.zeroPadded 2 (secs / 3600) ++ ":"
    ++ Text.zeroPadded 2 (secs / 60 % 60) ++ ":" ++ Text.zeroPadded 2 (secs % 60)
    ++ (if fraction = 0 then "" else "." ++ Text.zeroPadded 3 fraction) ++ "Z"

end Timestamp

end LedgerBench
