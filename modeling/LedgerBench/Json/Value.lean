import LedgerBench.Binary64.Basic
import LedgerBench.Text.Numeral
/-!
JSON values.

A value is kept as it is written: an object's members stay in order and a name may be repeated, a
number keeps its digits. A string literal denotes a text unless it holds an unpaired surrogate
escape; such a literal is well-formed but denotes none, so a string is an optional text.
-/

namespace LedgerBench

namespace Json

/-- A number literal: sign, whole digits, digits after the point (none without a point), and the
exponent's sign and digits where it has one. -/
structure Number where
  negative : Bool
  whole : List Char
  fraction : List Char
  exponent : Option (Bool × List Char)
  deriving DecidableEq, Repr

end Json

inductive Json where
  | null
  | bool (value : Bool)
  | number (literal : Json.Number)
  | string (text : Option String)
  | array (elements : List Json)
  | object (members : List (Option String × Json))

namespace Json

/-- A string literal that denotes a text. -/
def text (s : String) : Json := .string (some s)

def ofNat (n : Nat) : Json :=
  .number { negative := false, whole := Text.decimal n, fraction := [], exponent := none }

def ofInt (i : Int) : Json :=
  .number { negative := i < 0, whole := Text.decimal i.natAbs, fraction := [], exponent := none }

/-- An object with the given members, in order. -/
def record (members : List (String × Json)) : Json :=
  .object (members.map fun (name, value) => (some name, value))

/-- A text, or nothing. -/
def ofText? : Option String → Json
  | some s => text s
  | none => null

/-- The natural number a numeral denotes, if it is written as an unsigned integer. -/
def Number.toNat? (n : Number) : Option Nat :=
  if n.negative ∨ n.fraction ≠ [] ∨ n.exponent ≠ none then none else Text.readDigits? n.whole

/-- The integer a numeral denotes, if it is written as one. Minus zero is no integer. -/
def Number.toInt? (n : Number) : Option Int :=
  if n.fraction ≠ [] ∨ n.exponent ≠ none then none
  else
    match Text.readDigits? n.whole with
    | none => none
    | some m => if n.negative then (if m = 0 then none else some (-(m : Int))) else some m

/-- The significand of a number and the power of ten it is scaled by. -/
structure Scaled where
  significand : Nat
  exponent : Int
  deriving DecidableEq, Repr

/-- The first significand that does not fit 64 bits. -/
def significandLimit : Nat := 2 ^ 64

/-- Reads whole digits. Once a digit does not fit, it and all that follow only scale. -/
def Scaled.readWhole (s : Scaled) : List Char → Scaled
  | [] => s
  | c :: cs =>
    let next := s.significand * 10 + (Text.digitValue? c).getD 0
    if next < significandLimit then Scaled.readWhole { s with significand := next } cs
    else { s with exponent := s.exponent + (cs.length + 1 : Nat) }

/-- Reads digits after the point. From the first that does not fit on, they are dropped. -/
def Scaled.readFraction (s : Scaled) : List Char → Scaled
  | [] => s
  | c :: cs =>
    let next := s.significand * 10 + (Text.digitValue? c).getD 0
    if next < significandLimit then
      Scaled.readFraction { significand := next, exponent := s.exponent - 1 } cs
    else s

/-- The greatest power of ten that a binary64 number can be scaled by in one step. -/
def greatestStep : Nat := 308

def powerOfTen (n : Nat) : Binary64 := Binary64.ofRatio false (10 ^ n) 1

/-- The value of `x · 10^-n` by divisions of at most `10^308`, each rounded; it stops at zero. -/
def scaleDown (x : Binary64) (n : Nat) : Binary64 :=
  if n ≤ greatestStep then Binary64.div x (powerOfTen n)
  else if x = Binary64.zero then x
  else scaleDown (Binary64.div x (powerOfTen greatestStep)) (n - greatestStep)
termination_by n
decreasing_by simp only [greatestStep] at *; omega

/-- The binary64 number of a significand and a power of ten: the significand is rounded, then scaled
and rounded again. There is none where it would be infinite. -/
def Scaled.toBinary64? (s : Scaled) : Option Binary64 :=
  let x := Binary64.ofNat s.significand
  if s.exponent < 0 then some (scaleDown x s.exponent.natAbs)
  else if s.exponent.natAbs ≤ greatestStep then
    let product := Binary64.mul x (powerOfTen s.exponent.natAbs)
    if product.isFinite then some product else none
  else if x = Binary64.zero then some x
  else none

/-- The binary64 number a numeral denotes, rounded as `Scaled.toBinary64?` says; none where it is
out of range. An exponent beyond 31 bits makes zero of a small number or a zero significand. -/
def Number.toBinary64? (n : Number) : Option Binary64 :=
  let whole := Scaled.readWhole { significand := 0, exponent := 0 } n.whole
  let scaled := Scaled.readFraction whole n.fraction
  let magnitude? := match n.exponent with
    | none => scaled.toBinary64?
    | some (negative, digits) =>
      match Text.readDigits? digits with
      | none => none
      | some e =>
        if 2 ^ 31 ≤ e then
          if negative ∨ scaled.significand = 0 then some Binary64.zero else none
        else
          let exponent := if negative then scaled.exponent - e else scaled.exponent + e
          { scaled with exponent }.toBinary64?
  magnitude?.map fun x => if n.negative then x.neg else x

end Json

end LedgerBench
