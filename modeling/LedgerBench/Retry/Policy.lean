import LedgerBench.Call.Basic
import LedgerBench.Duration
import LedgerBench.Binary64.Decimal
/-!
Retry policies: how often a call is tried, how long to wait between tries, and after which errors.

The delay after the `n`-th try is the initial delay times the factor to the power `n - 1`, in
binary64 arithmetic, and never more than the longest delay. `check` accepts the policies whose
delays make sense; an unchecked policy may ask for a negative delay, which is no duration.
-/

namespace LedgerBench

/-- How often, after what delays and after which kinds of error a call is tried again. -/
structure RetryPolicy where
  /-- The most tries, the first one included. -/
  maxAttempts : Nat := 3
  /-- The delay before the second try. -/
  initialBackoff : Duration := Duration.ofSecs 1
  maxBackoff : Duration := Duration.ofSecs 5
  /-- What each delay is multiplied by for the next. -/
  backoffFactor : Binary64 := Binary64.ofNat 2
  /-- The kinds of error worth another try. -/
  retryOn : List ErrorKind := [.transient, .transport]
  deriving DecidableEq, Repr

inductive PolicyError where
  | zeroAttempts
  | zeroBackoff
  | maxBelowInitial (initial max : Duration)
  | factorBelowOne (factor : Binary64)
  deriving DecidableEq, Repr

def PolicyError.message : PolicyError → String
  | .zeroAttempts => "max attempts must be at least 1"
  | .zeroBackoff => "initial backoff must be greater than zero"
  | .maxBelowInitial initial max =>
    "max backoff " ++ max.debug ++ " is shorter than initial backoff " ++ initial.debug
  | .factorBelowOne factor => "backoff factor " ++ factor.display ++ " must be >= 1"

namespace RetryPolicy

/-- The policy that tries once. -/
def noRetry : RetryPolicy := { maxAttempts := 1 }

/-- The first fault of a policy, if it has one. A factor that is not a number is below one. -/
def check (p : RetryPolicy) : Except PolicyError Unit :=
  if p.maxAttempts = 0 then .error .zeroAttempts
  else if p.initialBackoff.nanos = 0 then .error .zeroBackoff
  else if p.maxBackoff < p.initialBackoff then
    .error (.maxBelowInitial p.initialBackoff p.maxBackoff)
  else if !(Binary64.one.le p.backoffFactor) then .error (.factorBelowOne p.backoffFactor)
  else .ok ()

/-- The greatest exponent: 31 bits. -/
def maxExponent : Nat := 2 ^ 31 - 1

/-- The delay in seconds after `attempts` failed tries, before it is capped. -/
def rawDelay (p : RetryPolicy) (attempts : Nat) : Binary64 :=
  p.initialBackoff.asSeconds.mul (p.backoffFactor.power (min (attempts - 1) maxExponent))

/-- The delay after `attempts` failed tries. -/
def nextDelay? (p : RetryPolicy) (attempts : Nat) : Except Duration.OfSecondsError Duration :=
  let delay := p.rawDelay attempts
  if !delay.isFinite || p.maxBackoff.asSeconds.le delay then .ok p.maxBackoff
  else Duration.ofSeconds? delay

/-- Whether a kind of error is worth another try. A refused response never is. -/
def isRetryable (p : RetryPolicy) (kind : ErrorKind) : Bool :=
  kind != .endorsement && p.retryOn.contains kind

end RetryPolicy

end LedgerBench
