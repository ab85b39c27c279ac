import LedgerBench.Timestamp
import LedgerBench.Ulid
/-!
Where identifiers come from.

A source is the sequence of identifiers that will be drawn from it. `IdSource.counting` numbers them
from one; `IdSource.timed` puts the time at which an identifier is drawn above its random bits, so
that identifiers drawn in a later millisecond sort later.
-/

namespace LedgerBench

/-- The identifier drawn at a time with some random bits. -/
def Ulid.at (time : Timestamp) (random : Nat) : Ulid :=
  Ulid.ofParts (time.millis % (2 ^ 48 : Nat)).toNat random

/-- The identifiers that a source hands out: the first drawn has number zero. -/
abbrev IdSource := Nat → Ulid

namespace IdSource

/-- One, two, three and so on. -/
def counting : IdSource := fun n => Ulid.ofNat (n + 1)

/-- Identifiers made from the time and the random number at each draw. -/
def timed (clock : Nat → Timestamp) (random : Nat → Nat) : IdSource :=
  fun n => Ulid.at (clock n) (random n)

end IdSource

end LedgerBench
