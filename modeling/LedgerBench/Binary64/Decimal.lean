import LedgerBench.Binary64.Basic
import LedgerBench.Text.Numeral
/-!
Decimal texts of binary64 numbers.

`shortestDigits` finds the fewest decimal digits that read back as the number: for 1, 2, … 17 digits
it looks at the number's two neighbours on that decimal grid, and the first grid with a neighbour
inside the interval that rounds to the number wins; of two hits the nearer, and of two equally near
ones the one further from zero. `display` writes those digits positionally whatever the exponent,
`debug` switches to an exponent for very large and very small numbers, and `fixed` writes a given
number of places of the exact value, a half going to the even neighbour. `read?` reads a decimal and
rounds once.
-/

namespace LedgerBench

namespace Binary64

def digitCount (n : Nat) : Nat := (Text.decimal n).length

/-- The exponent `k` with `10^k ≤ v < 10^(k+1)` for a positive number of units: `v · 10^400` is a
whole number above one for every such `v`, and its digits are counted. -/
def decimalExponent (units : Nat) : Int :=
  (digitCount (units * 10 ^ 400 / unitsPerOne) : Int) - 401

/-- Whether `digits · 10^exponent` lies in the interval of reals that round to `units`. The
interval's ends are half a gap away (a quarter below, where the gap changes) and belong to it when
the number's last bit is even. -/
def roundsTo (units digits : Nat) (exponent : Int) : Bool :=
  let gap := spacing units
  let below := if units = 2 ^ units.log2 ∧ gap ≠ 1 then gap else 2 * gap
  let low := 4 * units - below
  let high := 4 * units + 2 * gap
  let num := digits * 10 ^ exponent.toNat * unitsPerOne * 4
  let den := 10 ^ (-exponent).toNat
  if (units / gap) % 2 = 0 then low * den ≤ num && num ≤ high * den
  else low * den < num && num < high * den

/-- Twice the distance between `digits · 10^exponent` and the number, on a common denominator. -/
def distance (units digits : Nat) (exponent : Int) : Nat :=
  let num := digits * 10 ^ exponent.toNat * unitsPerOne
  let goal := units * 10 ^ (-exponent).toNat
  (num - goal) + (goal - num)

/-- The neighbours of the number on the grid `10^exponent` that read back as it, the nearer first
and of two equally near ones the upper. -/
def hits (units : Nat) (exponent : Int) : List Nat :=
  let lower := units * 10 ^ (-exponent).toNat / (10 ^ exponent.toNat * unitsPerOne)
  let upper := lower + 1
  let order :=
    if distance units upper exponent ≤ distance units lower exponent then [upper, lower]
      else [lower, upper]
  order.filter fun d => d ≠ 0 && roundsTo units d exponent

/-- The first grid with a hit, from `places` digits on. -/
def shortestFrom (units : Nat) (exponent : Int) : Nat → Nat × Int
  | 0 => (units, exponent)
  | more + 1 =>
    match hits units exponent with
    | digits :: _ => (digits, exponent)
    | [] => shortestFrom units (exponent - 1) more

/-- The digits `d` without trailing zeros and the exponent `e` of the shortest decimal `d · 10^e` of
a positive number of units. -/
def shortestDigits (units : Nat) : Nat × Int :=
  shortestFrom units (decimalExponent units) 20

/-- The number with the trailing zeros of `digits` moved into the exponent. -/
def dropZeros (digits : Nat) (exponent : Int) : Nat → Nat × Int
  | 0 => (digits, exponent)
  | fuel + 1 =>
    if digits ≠ 0 ∧ digits % 10 = 0 then dropZeros (digits / 10) (exponent + 1) fuel
    else (digits, exponent)

/-- The number `digits · 10^exponent` written positionally, with at least `places` digits after the
point. -/
def positional (places digits : Nat) (exponent : Int) : List Char :=
  let whole := Text.decimal (digits * 10 ^ exponent.toNat)
  let point := (-exponent).toNat
  let padded := Text.padLeft '0' (point + 1) whole
  let fraction := Text.padRight '0' places (padded.drop (padded.length - point))
  let front := padded.take (padded.length - point)
  if fraction = [] then front else front ++ '.' :: fraction

/-- The number `digits · 10^exponent` in scientific form, without a sign on a positive exponent. -/
def scientific (digits : Nat) (exponent : Int) : List Char :=
  match Text.decimal digits with
  | [] => []
  | first :: rest =>
    let shown := if rest = [] then [first] else first :: '.' :: rest
    shown ++ 'e' :: (Text.intText (exponent + rest.length)).toList

def signText (negative : Bool) : List Char := if negative then ['-'] else []

/-- The shortest digits with trailing zeros removed. -/
def shortest (units : Nat) : Nat × Int :=
  let (digits, exponent) := shortestDigits units
  dropZeros digits exponent 20

/-- The text shown to a reader: shortest digits, never an exponent, no point in a whole number. -/
def display : Binary64 → String
  | nan => "NaN"
  | infinite s => String.ofList (signText s ++ ['i', 'n', 'f'])
  | finite s u =>
    if u = 0 then String.ofList (signText s ++ ['0'])
    else
      let (digits, exponent) := shortest u
      String.ofList (signText s ++ positional 0 digits exponent)

/-- The text shown to a developer: shortest digits with at least one place, in scientific form from
`10^16` on and below `10^-4`. -/
def debug : Binary64 → String
  | nan => "NaN"
  | infinite s => String.ofList (signText s ++ ['i', 'n', 'f'])
  | finite s u =>
    if u = 0 then String.ofList (signText s ++ ['0', '.', '0'])
    else
      let (digits, exponent) := shortest u
      let scale := decimalExponent u
      String.ofList (signText s ++
        if 16 ≤ scale ∨ scale < -4 then scientific digits exponent
        else positional 1 digits exponent)

/-- The exact value with a fixed number of places, a half going to the even neighbour. -/
def fixed (places : Nat) : Binary64 → String
  | nan => "NaN"
  | infinite s => String.ofList (signText s ++ ['i', 'n', 'f'])
  | finite s u =>
    let digits := roundHalfEven (u * 10 ^ places) unitsPerOne
    String.ofList (signText s ++ positional places digits (-(places : Int)))

/-- The number nearest to `digits · 10^exponent`. A decimal that is out of range by its length alone
is settled without forming the power. -/
def ofDecimal (negative : Bool) (digits : Nat) (exponent : Int) : Binary64 :=
  if digits = 0 then finite negative 0
  else
    let size := (digitCount digits : Int) + exponent
    if 310 < size then infinite negative
    else if size < -400 then finite negative 0
    else ofRatio negative (digits * 10 ^ exponent.toNat) (10 ^ (-exponent).toNat)

def lowerAscii (s : List Char) : List Char := s.map Char.toLower

/-- The number without a sign that a text denotes: digits with an optional point and exponent, or
the name of an infinity or of a value that is not a number, in any letter case. -/
def readMagnitude? (negative : Bool) (s : List Char) : Option Binary64 :=
  let word := lowerAscii s
  if word = "inf".toList ∨ word = "infinity".toList then some (infinite negative)
  else if word = "nan".toList then some nan
  else
    let isDigit := fun c : Char => (Text.digitValue? c).isSome
    let whole := s.takeWhile isDigit
    let afterWhole := s.dropWhile isDigit
    let (fraction, rest) := match afterWhole with
      | '.' :: more => (more.takeWhile isDigit, more.dropWhile isDigit)
      | _ => ([], afterWhole)
    if whole = [] ∧ fraction = [] then none
    else
      let exponent? : Option Int := match rest with
        | [] => some 0
        | 'e' :: more | 'E' :: more =>
          match more with
          | '-' :: digits => (Text.readDigits? digits).map fun n => -(n : Int)
          | '+' :: digits => (Text.readDigits? digits).map Int.ofNat
          | digits => (Text.readDigits? digits).map Int.ofNat
        | _ => none
      match exponent?, Text.readDigits? (whole ++ fraction) with
      | some e, some digits => some (ofDecimal negative digits (e - (fraction.length : Int)))
      | _, _ => none

/-- The number a decimal text denotes, rounded once. -/
def read? : List Char → Option Binary64
  | '-' :: s => readMagnitude? true s
  | '+' :: s => readMagnitude? false s
  | s => readMagnitude? false s

end Binary64

end LedgerBench
