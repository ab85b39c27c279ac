import LedgerBench.Call.Wire
import LedgerBench.Json.Reader
import LedgerBench.Retry.Policy
import LedgerBench.Template.Resolve
/-!
The configuration of a run.

A configuration is a JSON object in which every key is optional, here and in the retry settings
inside it; a missing key takes its default. A key that is not known, or that is given twice, is an
error.
-/

namespace LedgerBench

structure RetryConfig where
  attempts : Nat := 3
  initialBackoffMs : Nat := 1000
  maxBackoffMs : Nat := 5000
  backoffFactor : Binary64 := Binary64.ofNat 2
  retryOn : List ErrorKind := [.transient, .transport]
  deriving DecidableEq, Repr

namespace RetryConfig

def toPolicy (c : RetryConfig) : RetryPolicy where
  maxAttempts := c.attempts
  initialBackoff := Duration.ofMillis c.initialBackoffMs
  maxBackoff := Duration.ofMillis c.maxBackoffMs
  backoffFactor := c.backoffFactor
  retryOn := c.retryOn

def policy? (c : RetryConfig) : Except PolicyError RetryPolicy :=
  match c.toPolicy.check with
  | .ok () => .ok c.toPolicy
  | .error e => .error e

def keys : List String :=
  ["attempts", "initial_backoff_ms", "max_backoff_ms", "backoff_factor", "retry_on"]

/-- The first number of attempts that does not fit: 32 bits. -/
def attemptsBound : Nat := 2 ^ 32

def ofJson? (v : Json) : Option RetryConfig :=
  let default : RetryConfig := {}
  match Json.fields? keys true v with
  | some [attempts, initialBackoffMs, maxBackoffMs, backoffFactor, retryOn] => do
    let attempts ← Json.withDefault? default.attempts (Json.asNat? attemptsBound) attempts
    let initialBackoffMs ←
      Json.withDefault? default.initialBackoffMs (Json.asNat? Progress.countBound) initialBackoffMs
    let maxBackoffMs ←
      Json.withDefault? default.maxBackoffMs (Json.asNat? Progress.countBound) maxBackoffMs
    let backoffFactor ← Json.withDefault? default.backoffFactor Json.asBinary64? backoffFactor
    let retryOn ← Json.withDefault? default.retryOn (Json.asList? ErrorKind.ofJson?) retryOn
    some { attempts, initialBackoffMs, maxBackoffMs, backoffFactor, retryOn }
  | _ => none

end RetryConfig

structure Config where
  concurrency : Nat := 10
  queueCapacity : Nat := 64
  /-- How many groups are made from one batch. -/
  iterations : Nat := 1
  reportIntervalSecs : Nat := 10
  /-- The pause between the submissions of groups. -/
  submitIntervalMs : Nat := 0
  retry : RetryConfig := {}
  targets : List Target := []
  deriving DecidableEq, Repr

inductive ConfigError where
  | unreadable (path : String) (cause : ReadError)
  | malformed
  | retry (cause : PolicyError)
  deriving DecidableEq, Repr

/-- What is wrong with a text that is no configuration. -/
def ConfigError.malformedReason : String := "not a configuration object"

def ConfigError.message : ConfigError → String
  | .unreadable path cause => "cannot read config file " ++ path ++ ": " ++ cause.message
  | .malformed => "invalid config: " ++ malformedReason
  | .retry cause => "invalid retry policy: " ++ cause.message

namespace Config

def keys : List String :=
  ["concurrency", "queue_capacity", "iterations", "report_interval_secs", "submit_interval_ms",
    "retry", "targets"]

def ofJson? (v : Json) : Option Config :=
  let default : Config := {}
  let count := Json.asNat? Progress.countBound
  match Json.fields? keys true v with
  | some [concurrency, queueCapacity, iterations, reportIntervalSecs, submitIntervalMs, retry,
      targets] => do
    let concurrency ← Json.withDefault? default.concurrency count concurrency
    let queueCapacity ← Json.withDefault? default.queueCapacity count queueCapacity
    let iterations ← Json.withDefault? default.iterations count iterations
    let reportIntervalSecs ← Json.withDefault? default.reportIntervalSecs count reportIntervalSecs
    let submitIntervalMs ← Json.withDefault? default.submitIntervalMs count submitIntervalMs
    let retry ← Json.withDefault? default.retry RetryConfig.ofJson? retry
    let targets ← Json.withDefault? default.targets (Json.asList? Target.ofJson?) targets
    some { concurrency, queueCapacity, iterations, reportIntervalSecs, submitIntervalMs,
           retry, targets }
  | _ => none

def read? (s : List Char) : Option Config := (Json.read? s).bind ofJson?

def ofText (s : List Char) : Except ConfigError Config :=
  match read? s with
  | some c => .ok c
  | none => .error .malformed

def ofFile (files : FileReader) (path : String) : Except ConfigError Config :=
  match files path with
  | .ok text => ofText text
  | .error cause => .error (.unreadable path cause)

def reportInterval (c : Config) : Duration := Duration.ofSecs c.reportIntervalSecs

def submitInterval (c : Config) : Duration := Duration.ofMillis c.submitIntervalMs

end Config

end LedgerBench
