import LedgerBench.Natural
/-!
Numerals: decimal and hexadecimal texts of natural numbers and integers, and their readers.

A reader takes an optional sign and ASCII digits and nothing else (no blanks, no separators), and
refuses a number outside the range it is asked for. `decimal` writes the only numeral without
leading zeros, so a reader and `decimal` undo each other.
-/

namespace LedgerBench.Text

def digitValue? (c : Char) : Option Nat :=
  if '0' ≤ c ∧ c ≤ '9' then some (c.toNat - '0'.toNat) else none

/-- The number a run of digits denotes, continuing from `acc`. -/
def digitsFrom (acc : Nat) : List Char → Option Nat
  | [] => some acc
  | c :: cs =>
    match digitValue? c with
    | some d => digitsFrom (acc * 10 + d) cs
    | none => none

/-- The number denoted by a non-empty run of decimal digits. -/
def readDigits? : List Char → Option Nat
  | [] => none
  | cs => digitsFrom 0 cs

/-- An unsigned numeral below `bound`: digits after an optional plus sign. -/
def readUnsigned? (bound : Nat) (s : List Char) : Option Nat :=
  let digits := match s with
    | '+' :: rest => rest
    | _ => s
  (readDigits? digits).filter (· < bound)

/-- A signed numeral in `[-bound, bound)`: digits after an optional sign. -/
def readSigned? (bound : Nat) (s : List Char) : Option Int :=
  match s with
  | '-' :: rest => ((readDigits? rest).filter (· ≤ bound)).map fun n => -(n : Int)
  | '+' :: rest => ((readDigits? rest).filter (· < bound)).map Int.ofNat
  | _ => ((readDigits? s).filter (· < bound)).map Int.ofNat

def decimal (n : Nat) : List Char := Nat.toDigits 10 n

def natText (n : Nat) : String := String.ofList (decimal n)

/-- The decimal text of an integer, with a minus sign where it is negative. -/
def intText (i : Int) : String :=
  if i < 0 then "-" ++ natText i.natAbs else natText i.natAbs

/-- The text `s` filled up with `fill` on the left to `width` characters. -/
def padLeft (fill : Char) (width : Nat) (s : List Char) : List Char :=
  List.replicate (width - s.length) fill ++ s

/-- The text `s` filled up with `fill` on the right to `width` characters. -/
def padRight (fill : Char) (width : Nat) (s : List Char) : List Char :=
  s ++ List.replicate (width - s.length) fill

/-- A number in decimal, with zeros in front up to `width` digits. -/
def zeroPadded (width n : Nat) : String := String.ofList (padLeft '0' width (decimal n))

/-- A number in lower-case hexadecimal, with zeros in front up to `width` digits. -/
def hexPadded (width n : Nat) : String :=
  String.ofList (padLeft '0' width (Nat.toDigits 16 n))

def hexValue? (c : Char) : Option Nat :=
  if '0' ≤ c ∧ c ≤ '9' then some (c.toNat - '0'.toNat)
  else if 'a' ≤ c ∧ c ≤ 'f' then some (c.toNat - 'a'.toNat + 10)
  else if 'A' ≤ c ∧ c ≤ 'F' then some (c.toNat - 'A'.toNat + 10)
  else none

end LedgerBench.Text
