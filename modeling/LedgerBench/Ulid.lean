import LedgerBench.Text.Numeral
/-!
Lexicographically sortable identifiers.

An identifier is a 128-bit number whose upper 48 bits are a time in milliseconds and whose lower 80
are random, written as 26 digits of Crockford's base 32. Of the first digit only the lower three
bits count. `Identifier` tags an identifier with what it names, so that a run's cannot stand for a
task's.
-/

namespace LedgerBench

structure Ulid where
  bits : BitVec 128
  deriving DecidableEq, Repr, Inhabited

namespace Ulid

/-- The base-32 digits: no letter that looks like a digit or like another. -/
def alphabet : List Char := "0123456789ABCDEFGHJKMNPQRSTVWXYZ".toList

def width : Nat := 26

def digitChar (n : Nat) : Char := alphabet.getD n '0'

/-- The value of a digit of either letter case. -/
def digitValue? (c : Char) : Option Nat := alphabet.idxOf? c.toUpper

def digits : Nat → Nat → List Char
  | 0, _ => []
  | count + 1, n => digits count (n / 32) ++ [digitChar (n % 32)]

def text (u : Ulid) : String := String.ofList (digits width u.bits.toNat)

/-- The number that some digits denote, continuing from `acc`. -/
def digitsFrom? (acc : Nat) : List Char → Option Nat
  | [] => some acc
  | c :: cs =>
    match digitValue? c with
    | some d => digitsFrom? (acc * 32 + d) cs
    | none => none

/-- The identifier that 26 digits denote; bits above the 128th are dropped. -/
def ofText? (s : String) : Option Ulid :=
  if s.toList.length = width then (digitsFrom? 0 s.toList).map fun n =>
    ⟨BitVec.ofNat 128 n⟩ else none

def ofNat (n : Nat) : Ulid := ⟨BitVec.ofNat 128 n⟩

/-- The identifier with the low 48 bits of a time and the low 80 of a random number. -/
def ofParts (millis random : Nat) : Ulid :=
  ⟨BitVec.ofNat 128 (millis % 2 ^ 48 * 2 ^ 80 + random % 2 ^ 80)⟩

/-- The time part: the upper 48 bits. -/
def millis (u : Ulid) : Nat := u.bits.toNat / 2 ^ 80

/-- Identifiers are ordered as numbers, so first by time. -/
def le (a b : Ulid) : Bool := a.bits.toNat ≤ b.bits.toNat

end Ulid

/-- What an identifier names. -/
inductive NamedKind where
  | run
  | task
  deriving DecidableEq, Repr

def NamedKind.label : NamedKind → String
  | .run => "run-"
  | .task => "task-"

/-- An identifier of something of the given kind. -/
structure Identifier (kind : NamedKind) where
  ulid : Ulid
  deriving DecidableEq, Repr, Inhabited

abbrev RunId := Identifier .run

/-- The identifier of a call or of a group of tasks. -/
abbrev TaskId := Identifier .task

/-- The kind's word and the digits. -/
def Identifier.text {kind : NamedKind} (id : Identifier kind) : String := kind.label ++ id.ulid.text

/-- Identifiers in ascending order, each once. -/
def Ulid.sortDistinct (ids : List Ulid) : List Ulid :=
  (ids.mergeSort Ulid.le).foldr
    (fun u rest => match rest with
      | next :: _ => if u = next then rest else u :: rest
      | [] => [u]) []

end LedgerBench
