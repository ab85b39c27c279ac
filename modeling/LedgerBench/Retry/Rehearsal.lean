import LedgerBench.Retry.Loop
/-!
Rehearsals of retry loops.

A rehearsal is a loop of attempts whose results are known beforehand, on a clock that only its waits
move. Whatever it does is written down in the order in which it happens.
-/

namespace LedgerBench

/-- What someone who watches a retry loop sees. -/
inductive RetryStep where
  | attempted (start : Duration)
  | slept (delay : Duration)
  | told (error : CallError)
  deriving DecidableEq, Repr

/-- How far a rehearsal is. -/
structure Rehearsal where
  clock : Duration := Duration.zero
  attempts : Nat := 0
  steps : List RetryStep := []
  deriving DecidableEq, Repr

namespace Rehearsal

/-- The next attempt; the first one has number 1. It takes no time. -/
def attempt {α : Type} (results : Nat → Attempt α) : StateM Rehearsal (Attempt α) :=
  modifyGet fun r =>
  (results (r.attempts + 1),
    { r with attempts := r.attempts + 1, steps := r.steps ++ [.attempted r.clock] })

def sleep (delay : Duration) : StateM Rehearsal Unit := modify fun r =>
  { r with clock := r.clock + delay.waited, steps := r.steps ++ [.slept delay] }

def tell (error : CallError) : StateM Rehearsal Unit :=
  modify fun r => { r with steps := r.steps ++ [.told error] }

end Rehearsal

/-- What a loop of attempts with these results comes to, and how. -/
def RetryPolicy.rehearse {α : Type} (policy : RetryPolicy) (results : Nat → Attempt α) :
    Retried α × Rehearsal :=
  (retryTelling policy Rehearsal.sleep Rehearsal.tell (Rehearsal.attempt results)).run {}

end LedgerBench
