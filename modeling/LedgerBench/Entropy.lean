import LedgerBench.Template.Resolve
/-!
Random numbers from a seed.

The `n`-th number is a mix of the seed and `n`: both are combined by a fixed odd step, and two
rounds of shifting and multiplying spread every bit over all others. One seed gives any number of
independent streams (`Entropy.stream`).
-/

namespace LedgerBench

structure Entropy where
  seed : UInt64
  deriving DecidableEq, Repr

namespace Entropy

/-- Spreads every bit over all others. -/
def mix (x : UInt64) : UInt64 :=
  let x := (x ^^^ (x >>> 30)) * 0xbf58476d1ce4e5b9
  let x := (x ^^^ (x >>> 27)) * 0x94d049bb133111eb
  x ^^^ (x >>> 31)

/-- The odd step between neighbouring numbers of a stream. -/
def stride : UInt64 := 0x9e3779b97f4a7c15

/-- The `n`-th number of a stream. -/
def stream (e : Entropy) (name : UInt64) (n : Nat) : Nat :=
  (mix (mix (e.seed + name * stride) + (UInt64.ofNat n + 1) * stride)).toNat

/-- A number of 128 bits, made from two of a stream. -/
def wide (e : Entropy) (name : UInt64) (n : Nat) : Nat :=
  e.stream name (2 * n) * 2 ^ 64 + e.stream name (2 * n + 1)

def draws (e : Entropy) (name : UInt64) : Draws := { stream := e.stream name }

end Entropy

end LedgerBench
