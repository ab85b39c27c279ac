import LedgerBench.Call.Basic
import LedgerBench.Duration
/-!
What tasks report while they run.

A call reports when it starts and once when it is done; a group reports once, after its members.
-/

namespace LedgerBench

/-- The first number that is no number of attempts, which has 32 bits. -/
def Task.attemptBound : Nat := 2 ^ 32

/-- How a call ended, retries included. -/
structure Outcome where
  task : TaskId
  function : String
  attempts : Nat
  duration : Duration
  error : Option CallError
  /-- The errors of the attempts that were followed by another one, in order. -/
  retried : List CallError
  /-- The committed transaction of a submitted call. -/
  transactionId : Option String
  payload : Option Bytes
  deriving DecidableEq, Repr

/-- A report of a running task. -/
inductive Event where
  /-- A call is about to make its first attempt. -/
  | started (task : TaskId) (function : String)
  /-- A call is done. -/
  | completed (outcome : Outcome)
  /-- Every member of a group is done. -/
  | groupCompleted (group : TaskId) (members attempts : Nat) (error : Option CallError)
  deriving DecidableEq, Repr

end LedgerBench
