import LedgerBench.Text.Numeral
/-!
Byte strings: the UTF-8 form of a text, reading UTF-8 back, the 64-bit Fowler-Noll-Vo hash and the
hexadecimal form of bytes.

`decodeLossy` shows a payload that need not be text: every maximal part of an ill-formed sequence
becomes one replacement character, as the Unicode standard recommends.
-/

namespace LedgerBench

/-- A string of bytes, such as a payload or a signature. -/
abbrev Bytes := List UInt8

namespace Bytes

def ofText (s : String) : Bytes := s.toUTF8.toList

/-- One step of FNV-1a: mix in the byte, then multiply by the prime. -/
def fnvStep (hash : UInt64) (byte : UInt8) : UInt64 := (hash ^^^ byte.toUInt64) * 0x100000001b3

/-- The 64-bit FNV-1a hash. -/
def fnv1a (bytes : Bytes) : UInt64 := bytes.foldl fnvStep 0xcbf29ce484222325

/-- Two lower-case hexadecimal digits for each byte. -/
def hex (bytes : Bytes) : String :=
  String.ofList (bytes.flatMap fun b => [Nat.digitChar (b.toNat / 16),
    Nat.digitChar (b.toNat % 16)])

/-- The bytes that pairs of hexadecimal digits denote. -/
def ofHex? : List Char → Option Bytes
  | [] => some []
  | [_] => none
  | high :: low :: rest => do
    let high ← Text.hexValue? high
    let low ← Text.hexValue? low
    let bytes ← ofHex? rest
    some (UInt8.ofNat (high * 16 + low) :: bytes)

/-- Which second bytes may follow a lead byte: the ranges exclude over-long forms, surrogates and
what lies above the last code point. -/
def secondRange (lead : UInt8) : UInt8 × UInt8 :=
  if lead = 0xE0 then (0xA0, 0xBF)
  else if lead = 0xED then (0x80, 0x9F)
  else if lead = 0xF0 then (0x90, 0xBF)
  else if lead = 0xF4 then (0x80, 0x8F)
  else (0x80, 0xBF)

/-- How many bytes a sequence with this lead byte has, or `none` where no sequence starts so. -/
def sequenceLength? (lead : UInt8) : Option Nat :=
  if lead < 0x80 then some 1
  else if 0xC2 ≤ lead && lead ≤ 0xDF then some 2
  else if 0xE0 ≤ lead && lead ≤ 0xEF then some 3
  else if 0xF0 ≤ lead && lead ≤ 0xF4 then some 4
  else none

/-- The payload bits of a lead byte of a sequence of the given length. -/
def leadBits (lead : UInt8) (length : Nat) : Nat :=
  match length with
  | 1 => lead.toNat
  | 2 => lead.toNat % 32
  | 3 => lead.toNat % 16
  | _ => lead.toNat % 8

/-- A sequence that has been begun: the bits so far, how many bytes are still due, and between which
bounds the next one must lie. -/
structure Pending where
  bits : Nat
  due : Nat
  low : UInt8
  high : UInt8

/-- What has been read of a byte string: the characters in reverse (`none` for an ill-formed part)
and the sequence under way. -/
structure Reading where
  seen : List (Option Char)
  pending : Option Pending

/-- Reads a byte where no sequence is under way. -/
def Reading.lead (seen : List (Option Char)) (b : UInt8) : Reading :=
  match sequenceLength? b with
  | none => { seen := none :: seen, pending := none }
  | some 1 => { seen := some (Char.ofNat b.toNat) :: seen, pending := none }
  | some n =>
    let (low, high) := secondRange b
    { seen, pending := some { bits := leadBits b n, due := n - 1, low, high } }

/-- Reads one more byte. A byte that cannot continue the sequence under way ends it as ill-formed
and is read afresh. -/
def Reading.byte (r : Reading) (b : UInt8) : Reading :=
  match r.pending with
  | none => Reading.lead r.seen b
  | some p =>
    if p.low ≤ b && b ≤ p.high then
      let bits := p.bits * 64 + b.toNat % 64
      if p.due ≤ 1 then { seen := some (Char.ofNat bits) :: r.seen, pending := none }
      else { r with pending := some { bits, due := p.due - 1, low := 0x80, high := 0xBF } }
    else Reading.lead (none :: r.seen) b

/-- Reads a whole byte string; a sequence cut off by the end is ill-formed. -/
def read (bytes : Bytes) : List (Option Char) :=
  let r := bytes.foldl Reading.byte { seen := [], pending := none }
  (if r.pending.isSome then none :: r.seen else r.seen).reverse

/-- The text of a byte string, with the replacement character for each ill-formed part. -/
def decodeLossy (bytes : Bytes) : String :=
  String.ofList ((read bytes).map fun c => c.getD '\uFFFD')

/-- The text of a byte string that is well-formed UTF-8. -/
def decode? (bytes : Bytes) : Option (List Char) := (read bytes).mapM id

end Bytes

end LedgerBench
