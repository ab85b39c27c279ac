import LedgerBench.Run.Bench
import LedgerBench.Text.Quoted
/-!
The text that shows how a bench is set up.

Settings, policy and handlers are written as nested records, for people who debug a configuration;
the ledger is left out.
-/

namespace LedgerBench

def ErrorKind.description : ErrorKind → String
  | .transient => "Transient"
  | .persistent => "Persistent"
  | .transport => "Transport"
  | .endorsement => "Endorsement"

/-- The kinds of error that are tried again. -/
def ErrorKind.listDescription (kinds : List ErrorKind) : String :=
  Text.bracketedList (kinds.map ErrorKind.description)

def Target.description (t : Target) : String :=
  Text.recordText "Target" [("name", Text.quoted t.name), ("url", Text.quoted t.url)]

def RetryConfig.description (c : RetryConfig) : String :=
  Text.recordText "RetryConfig" [
    ("attempts", Text.natText c.attempts),
    ("initial_backoff_ms", Text.natText c.initialBackoffMs),
    ("max_backoff_ms", Text.natText c.maxBackoffMs),
    ("backoff_factor", c.backoffFactor.debug),
    ("retry_on", ErrorKind.listDescription c.retryOn)]

def Config.description (c : Config) : String :=
  Text.recordText "HarnessConfig" [
    ("concurrency", Text.natText c.concurrency),
    ("queue_capacity", Text.natText c.queueCapacity),
    ("iterations", Text.natText c.iterations),
    ("report_interval_secs", Text.natText c.reportIntervalSecs),
    ("submit_interval_ms", Text.natText c.submitIntervalMs),
    ("retry", c.retry.description),
    ("targets", Text.bracketedList (c.targets.map Target.description))]

def RetryPolicy.description (p : RetryPolicy) : String :=
  Text.recordText "RetryPolicy" [
    ("max_attempts", Text.natText p.maxAttempts),
    ("initial_backoff", p.initialBackoff.debug),
    ("max_backoff", p.maxBackoff.debug),
    ("backoff_factor", p.backoffFactor.debug),
    ("retry_on", ErrorKind.listDescription p.retryOn)]

def HandlerChain.description (chain : HandlerChain) : String :=
  Text.bracketedList (chain.names.map Text.quoted)

def Bench.description {σ : Type} (b : Bench σ) : String :=
  Text.partialRecordText "Orchestrator" [
    ("settings", b.config.description),
    ("policy", b.policy.description),
    ("handlers", b.handlers.description)]

end LedgerBench
