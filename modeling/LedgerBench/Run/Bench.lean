import LedgerBench.Call.Handler
import LedgerBench.Ledger.Basic
import LedgerBench.Run.Config
/-!
A bench: a ledger and a checked configuration, ready for runs.

A bench is assembled in steps (`BenchPlan`) and checked as a whole when it is built, so that a
configuration that makes no sense never gets as far as a half-started run. The first fault in a
fixed order decides.
-/

namespace LedgerBench

/-- A setting that must be at least one. -/
inductive Limit where
  | concurrency
  | queueCapacity
  | iterations
  | reportInterval
  deriving DecidableEq, Repr

namespace Limit

def all : List Limit := [concurrency, queueCapacity, iterations, reportInterval]

def key : Limit → String
  | concurrency => "concurrency"
  | queueCapacity => "queue_capacity"
  | iterations => "iterations"
  | reportInterval => "report_interval_secs"

def value (c : Config) : Limit → Nat
  | concurrency => c.concurrency
  | queueCapacity => c.queueCapacity
  | iterations => c.iterations
  | reportInterval => c.reportIntervalSecs

end Limit

inductive BuildError where
  | noLedger
  | noVerifier
  | zero (limit : Limit)
  | iterationsExceedQueue (iterations capacity : Nat)
  | retry (cause : PolicyError)
  deriving DecidableEq, Repr

def BuildError.message : BuildError → String
  | .noLedger => "no ledger transport configured"
  | .noVerifier => "no signature verifier or response handlers configured for query validation"
  | .zero limit => limit.key ++ " must be at least 1"
  | .iterationsExceedQueue iterations capacity =>
    Text.natText iterations ++ " iterations do not fit in " ++ Text.natText capacity
      ++ " queue slots; raise queue_capacity"
  | .retry cause => "invalid retry policy: " ++ cause.message

/-- A bench over a ledger with states `σ`. -/
structure Bench (σ : Type) where
  config : Config
  policy : RetryPolicy
  ledger : Ledger σ
  handlers : HandlerChain

/-- A bench under construction. What is wired later replaces what was wired before. -/
structure BenchPlan (σ : Type) where
  config : Config
  ledger : Option (Ledger σ) := none
  handlers : Option HandlerChain := none

namespace BenchPlan

def withLedger {σ : Type} (p : BenchPlan σ) (ledger : Ledger σ) : BenchPlan σ :=
  { p with ledger := some ledger }

def withHandlers {σ : Type} (p : BenchPlan σ) (handlers : HandlerChain) : BenchPlan σ :=
  { p with handlers := some handlers }

/-- Wires the standard handlers with a signature verifier. -/
def withVerifier {σ : Type} (p : BenchPlan σ) (verify : SignatureVerifier) : BenchPlan σ :=
  p.withHandlers (HandlerChain.standard verify)

/-- Wires a ledger that verifies the signatures of its own endorsements. -/
def withVerifyingLedger {σ : Type} (p : BenchPlan σ) (ledger : Ledger σ)
    (verify : SignatureVerifier) : BenchPlan σ :=
  (p.withLedger ledger).withVerifier verify

/-- The first fault of a configuration, or the policy it sets. -/
def checkConfig (c : Config) : Except BuildError RetryPolicy :=
  match Limit.all.find? fun limit => limit.value c = 0 with
  | some limit => .error (.zero limit)
  | none =>
    if c.queueCapacity < c.iterations then .error
      (.iterationsExceedQueue c.iterations c.queueCapacity)
    else
      match c.retry.policy? with
      | .ok policy => .ok policy
      | .error cause => .error (.retry cause)

/-- The bench, if everything is wired and the configuration makes sense. -/
def build {σ : Type} (p : BenchPlan σ) : Except BuildError (Bench σ) :=
  match p.ledger, p.handlers with
  | none, _ => .error .noLedger
  | some _, none => .error .noVerifier
  | some ledger, some handlers =>
    match checkConfig p.config with
    | .ok policy => .ok { config := p.config, policy, ledger, handlers }
    | .error e => .error e

end BenchPlan

end LedgerBench
