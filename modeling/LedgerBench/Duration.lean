import LedgerBench.Binary64.Basic
import LedgerBench.Text.Numeral
/-!
Spans of time.

A duration is a whole number of nanoseconds. Its seconds part must fit 64 bits, which only matters
where durations are added up (`sum?`) or made from a number of seconds (`ofSeconds?`). A part of a
duration (`dividedBy?`) is rounded down. A wait takes whole milliseconds and never more than thirty
years (`waited`). `asSeconds` is the binary64 number of seconds, the whole seconds and the fraction
each rounded and then added; `debug` is the text with the unit that leaves at least one whole digit.
-/

namespace LedgerBench

/-- A span of time in nanoseconds. -/
structure Duration where
  nanos : Nat
  deriving DecidableEq, Repr, Inhabited

namespace Duration

def perSecond : Nat := 1000000000

def perMilli : Nat := 1000000

/-- The first number of nanoseconds whose seconds part does not fit 64 bits. -/
def limit : Nat := 2 ^ 64 * perSecond

def zero : Duration := ⟨0⟩

def ofSecs (n : Nat) : Duration := ⟨n * perSecond⟩

def ofMillis (n : Nat) : Duration := ⟨n * perMilli⟩

def secs (d : Duration) : Nat := d.nanos / perSecond

/-- Nanoseconds past the last whole second. -/
def subsecNanos (d : Duration) : Nat := d.nanos % perSecond

def millis (d : Duration) : Nat := d.nanos / perMilli

instance : LT Duration := ⟨fun a b => a.nanos < b.nanos⟩

instance : LE Duration := ⟨fun a b => a.nanos ≤ b.nanos⟩

instance (a b : Duration) : Decidable (a < b) := inferInstanceAs (Decidable (a.nanos < b.nanos))

instance (a b : Duration) : Decidable (a ≤ b) := inferInstanceAs (Decidable (a.nanos ≤ b.nanos))

instance : Add Duration := ⟨fun a b => ⟨a.nanos + b.nanos⟩⟩

instance : Sub Duration := ⟨fun a b => ⟨a.nanos - b.nanos⟩⟩

def max (a b : Duration) : Duration := if a.nanos ≤ b.nanos then b else a

def min (a b : Duration) : Duration := if a.nanos ≤ b.nanos then a else b

/-- The longest that anyone waits: thirty years of 365 days. -/
def longestWait : Duration := ofSecs (30 * 365 * 86400)

/-- How long a wait for a duration takes. Timers go off at whole milliseconds and never before they
are due. -/
def waited (d : Duration) : Duration :=
  min longestWait (ofMillis ((d.nanos + (perMilli - 1)) / perMilli))

/-- The total of some durations, if it is still a duration. -/
def sum? (ds : List Duration) : Option Duration :=
  let total := (ds.map Duration.nanos).sum
  if total < limit then some ⟨total⟩ else none

/-- A duration divided by a count, rounded down; there is none for a count of zero. Seconds and
nanoseconds are divided on their own, and what is left of both is carried over to the
nanoseconds. -/
def dividedBy? (d : Duration) (count : Nat) : Option Duration :=
  if count = 0 then none
  else
    let carried := d.secs % count * perSecond + d.subsecNanos % count
    some ⟨d.secs / count * perSecond + (d.subsecNanos / count + carried / count)⟩

/-- The number of seconds: whole seconds plus nanoseconds over `10^9`, every step rounded. -/
def asSeconds (d : Duration) : Binary64 :=
  Binary64.add (Binary64.ofNat d.secs)
    (Binary64.div (Binary64.ofNat d.subsecNanos) (Binary64.ofNat perSecond))

inductive OfSecondsError where
  | negative
  | tooLarge
  deriving DecidableEq, Repr

def OfSecondsError.message : OfSecondsError → String
  | .negative => "cannot convert float seconds to Duration: value is negative"
  | .tooLarge => "cannot convert float seconds to Duration: value is either too big or NaN"

/-- The duration nearest to a number of seconds: the exact value in nanoseconds, a tie to the even
one. -/
def ofSeconds? : Binary64 → Except OfSecondsError Duration
  | .nan => .error .tooLarge
  | .infinite negative => .error (if negative then .negative else .tooLarge)
  | .finite negative units =>
    if negative ∧ units ≠ 0 then .error .negative
    else
      let nanos := Binary64.roundHalfEven (units * perSecond) Binary64.unitsPerOne
      if nanos < limit then .ok ⟨nanos⟩ else .error .tooLarge

/-- The text `digits` without the zeros at its end. -/
def dropTrailingZeros (digits : List Char) : List Char :=
  (digits.reverse.dropWhile (· == '0')).reverse

/-- A whole part and a fraction of `places` digits, the fraction without trailing zeros. -/
def decimalText (whole fraction places : Nat) : String :=
  let digits := dropTrailingZeros (Text.padLeft '0' places (Text.decimal fraction))
  if digits = [] then Text.natText whole
  else Text.natText whole ++ "." ++ String.ofList digits

/-- The text of a duration in seconds, milliseconds, microseconds or nanoseconds: the largest unit
of which it holds at least one. -/
def debug (d : Duration) : String :=
  let n := d.nanos
  if perSecond ≤ n then decimalText (n / perSecond) (n % perSecond) 9 ++ "s"
  else if perMilli ≤ n then decimalText (n / perMilli) (n % perMilli) 6 ++ "ms"
  else if 1000 ≤ n then decimalText (n / 1000) (n % 1000) 3 ++ "µs"
  else Text.natText n ++ "ns"

end Duration

end LedgerBench
