import LedgerBench.Retry.Policy
/-!
Trying a call until it settles.

`retry` makes attempts until one succeeds, fails with an error the policy does not retry, or is the
last the policy allows. It keeps the errors of the attempts that were followed by another one. An
attempt may also panic, and so may the policy when it is asked for a negative delay: that ends the
loop at once, with what was kept until then. The loop works in any monad that can make an attempt
and sleep, and one who wants to know of every retry as it happens (`retryTelling`) is told the error
that caused it.
-/

namespace LedgerBench

/-- How one attempt, or a whole loop of them, ended. -/
inductive Attempt (α : Type) where
  | ok (value : α)
  | failed (error : CallError)
  | panicked (reason : String)
  deriving DecidableEq, Repr

/-- The end of a retry loop, and the errors of the attempts that were followed by another, in
order. -/
structure Retried (α : Type) where
  result : Attempt α
  errors : List CallError
  deriving DecidableEq, Repr

/-- How many attempts a loop made: one more than it retried. -/
def Retried.attempts {α : Type} (r : Retried α) : Nat := r.errors.length + 1

/-- What follows a failed attempt where more attempts are allowed. -/
inductive AfterFailure where
  | settle
  | again (delay : Duration)
  | panic (reason : String)
  deriving DecidableEq, Repr

/-- What a policy makes of an error after so many attempts. -/
def RetryPolicy.afterFailure (p : RetryPolicy) (attempts : Nat) (e : CallError) : AfterFailure :=
  if p.isRetryable e.kind then
    match p.nextDelay? attempts with
    | .ok delay => .again delay
    | .error cause => .panic cause.message
  else .settle

section

variable {m : Type → Type} [Monad m] {α : Type}

/-- Retrying with `left` more attempts allowed after this one and the retried errors so far in
reverse. The error that causes a retry is told after the wait, right before the next attempt. -/
def retryLoop (after : Nat → CallError → AfterFailure) (sleep : Duration → m Unit)
    (beforeRetry : CallError → m Unit) (attempt : m (Attempt α)) (errors : List CallError) :
    Nat → m (Retried α)
  | 0 => do
    let result ← attempt
    pure { result, errors := errors.reverse }
  | left + 1 => do
    match ← attempt with
    | .failed e =>
      match after (errors.length + 1) e with
      | .again delay => do
        sleep delay
        beforeRetry e
        retryLoop after sleep beforeRetry attempt (e :: errors) left
      | .panic reason => pure { result := .panicked reason, errors := errors.reverse }
      | .settle => pure { result := .failed e, errors := errors.reverse }
    | result => pure { result, errors := errors.reverse }

/-- A loop that tells nobody of its retries. -/
def retryFrom (after : Nat → CallError → AfterFailure) (sleep : Duration → m Unit)
    (attempt : m (Attempt α)) (errors : List CallError) (left : Nat) : m (Retried α) :=
  retryLoop after sleep (fun _ => pure ()) attempt errors left

/-- Makes attempts until one settles the call, and tells of every retry. There is always a first
attempt. -/
def retryTelling (policy : RetryPolicy) (sleep : Duration → m Unit)
    (beforeRetry : CallError → m Unit) (attempt : m (Attempt α)) : m (Retried α) :=
  retryLoop policy.afterFailure sleep beforeRetry attempt [] (policy.maxAttempts - 1)

/-- Makes attempts until one settles the call. -/
def retry (policy : RetryPolicy) (sleep : Duration → m Unit) (attempt : m (Attempt α)) :
    m (Retried α) :=
  retryFrom policy.afterFailure sleep attempt [] (policy.maxAttempts - 1)

end

end LedgerBench
