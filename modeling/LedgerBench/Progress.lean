import LedgerBench.Text.Numeral
/-!
How far a run has come.
-/

namespace LedgerBench

/-- The calls of a run: how many are expected, and how many have started, succeeded and failed so
far. -/
structure Progress where
  expected : Nat
  started : Nat
  succeeded : Nat
  failed : Nat
  deriving DecidableEq, Repr

namespace Progress

/-- Calls that have ended either way. -/
def completed (p : Progress) : Nat := p.succeeded + p.failed

/-- Calls that have started and not ended; never below zero. -/
def inFlight (p : Progress) : Nat := p.started - p.completed

/-- The first count that does not fit 64 bits. -/
def countBound : Nat := 2 ^ 64

/-- Calls that have ended either way, if their number is still a count. -/
def completed? (p : Progress) : Option Nat :=
  if p.completed < countBound then some p.completed else none

/-- Calls that have started and not ended, if the number of ended ones is still a count. -/
def inFlight? (p : Progress) : Option Nat := p.completed?.map fun _ => p.inFlight

def failureLine (p : Progress) : String :=
  Text.natText p.failed ++ " failed invocation(s) out of " ++ Text.natText p.expected

def successLine (p : Progress) : String :=
  Text.natText p.succeeded ++ " successful invocation(s) out of " ++ Text.natText p.expected

end Progress

end LedgerBench
