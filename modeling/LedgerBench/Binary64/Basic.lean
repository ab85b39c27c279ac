import LedgerBench.Natural
/-!
Binary64 numbers as exact dyadic rationals.

Every finite binary64 number is a whole number of units of `2^-1074`, so a finite number is held as
its sign and that count of units, and an operation is the exact one followed by one rounding. The
main definitions:

  1. `roundHalfEven` rounds a quotient of naturals to the nearest natural, a tie to the even one.
  2. `roundUnits` rounds a quotient to the nearest count of units that a binary64 number can hold:
     53 significant bits, never finer than one unit.
  3. `add`, `mul`, `div` and `ofNat` round the exact result once; `power` is repeated squaring, each
     product rounded.
  4. `bits` is the interchange encoding.
-/

namespace LedgerBench

/-- A binary64 number. A finite one is `units · 2^-1074` with a sign; zero has both signs. -/
inductive Binary64 where
  | nan
  | infinite (negative : Bool)
  | finite (negative : Bool) (units : Nat)
  deriving DecidableEq, Repr, Inhabited

namespace Binary64

/-- How many units make one: `2^1074`. -/
def unitsPerOne : Nat := 2 ^ 1074

/-- The first count of units that is out of range: `2^1024` in units. -/
def limit : Nat := 2 ^ 2098

/-- The quotient `num / den` rounded to the nearest natural, a tie to the even neighbour. -/
def roundHalfEven (num den : Nat) : Nat :=
  let q := num / den
  let r := num % den
  if 2 * r < den then q else if den < 2 * r then q + 1 else q + q % 2

/-- The gap between the numbers representable near `units`: 53 bits are kept, but nothing is finer
than a unit. -/
def spacing (units : Nat) : Nat := 2 ^ (units.log2 - 52)

/-- The representable count of units nearest to `num / den`, a tie to the even multiple of the
gap. -/
def roundUnits (num den : Nat) : Nat :=
  let gap := spacing (num / den)
  roundHalfEven num (den * gap) * gap

/-- The number nearest to `num / den` units, or an infinity where that is out of range. -/
def ofUnitRatio (negative : Bool) (num den : Nat) : Binary64 :=
  let units := roundUnits num den
  if units < limit then finite negative units else infinite negative

/-- The number nearest to the quotient `num / den`. -/
def ofRatio (negative : Bool) (num den : Nat) : Binary64 :=
  ofUnitRatio negative (num * unitsPerOne) den

def ofNat (n : Nat) : Binary64 := ofRatio false n 1

def zero : Binary64 := finite false 0

def one : Binary64 := ofNat 1

def neg : Binary64 → Binary64
  | nan => nan
  | infinite s => infinite (!s)
  | finite s u => finite (!s) u

def isFinite : Binary64 → Bool
  | finite _ _ => true
  | _ => false

/-- The value of a finite number as a signed count of units. -/
def signedUnits (negative : Bool) (units : Nat) : Int :=
  if negative then -(units : Int) else units

/-- The sum. A sum that is exactly zero is positive unless both terms are negative zeros. -/
def add : Binary64 → Binary64 → Binary64
  | nan, _ => nan
  | _, nan => nan
  | infinite s, infinite t => if s = t then infinite s else nan
  | infinite s, finite _ _ => infinite s
  | finite _ _, infinite t => infinite t
  | finite s u, finite t v =>
    let sum := signedUnits s u + signedUnits t v
    if sum = 0 then finite (s && t) 0
    else ofUnitRatio (sum < 0) sum.natAbs 1

def mul : Binary64 → Binary64 → Binary64
  | nan, _ => nan
  | _, nan => nan
  | infinite s, infinite t => infinite (s != t)
  | infinite s, finite t v => if v = 0 then nan else infinite (s != t)
  | finite s u, infinite t => if u = 0 then nan else infinite (s != t)
  | finite s u, finite t v => ofUnitRatio (s != t) (u * v) unitsPerOne

def div : Binary64 → Binary64 → Binary64
  | nan, _ => nan
  | _, nan => nan
  | infinite _, infinite _ => nan
  | infinite s, finite t _ => infinite (s != t)
  | finite s _, infinite t => finite (s != t) 0
  | finite s u, finite t v =>
    if v = 0 then (if u = 0 then nan else infinite (s != t))
    else ofUnitRatio (s != t) (u * unitsPerOne) v

/-- A power in progress: `result` times `base` to the power `n`. -/
def powerFrom (result base : Binary64) (n : Nat) : Binary64 :=
  let result := if n % 2 = 1 then mul result base else result
  if n / 2 = 0 then result else powerFrom result (mul base base) (n / 2)
termination_by n

/-- A natural power by repeated squaring, every product rounded. -/
def power (base : Binary64) (n : Nat) : Binary64 := powerFrom one base n

/-- Whether the first number is less than the second; false where either is not a number. -/
def lt : Binary64 → Binary64 → Bool
  | nan, _ => false
  | _, nan => false
  | infinite s, infinite t => s && !t
  | infinite s, finite _ _ => s
  | finite _ _, infinite t => !t
  | finite s u, finite t v => signedUnits s u < signedUnits t v

/-- Whether the first number is less than or equal to the second; false where either is not a
number. -/
def le : Binary64 → Binary64 → Bool
  | nan, _ => false
  | _, nan => false
  | infinite s, infinite t => s || !t
  | infinite s, finite _ _ => s
  | finite _ _, infinite t => !t
  | finite s u, finite t v => signedUnits s u ≤ signedUnits t v

/-- The 64 bits of the interchange format; a value that is not a number has the quiet pattern. -/
def bits : Binary64 → Nat
  | nan => 0x7ff8000000000000
  | infinite s => (if s then 2 ^ 63 else 0) + 0x7ff * 2 ^ 52
  | finite s u =>
    let magnitude :=
      if u < 2 ^ 52 then u
      else
        let shift := u.log2 - 52
        (shift + 1) * 2 ^ 52 + (u / 2 ^ shift - 2 ^ 52)
    (if s then 2 ^ 63 else 0) + magnitude

end Binary64

end LedgerBench
