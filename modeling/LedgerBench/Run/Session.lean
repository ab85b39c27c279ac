import LedgerBench.Call.Batch
import LedgerBench.IdSource
import LedgerBench.Run.Bench
import LedgerBench.Run.Drive
/-!
Runs of a bench, from a batch to statistics.

A run makes one group of calls from the batch for each iteration, submits them all to an executor,
and ends when the end of every group has been recorded. A call that fails never ends a run; only a
batch that is none and a group that is refused do. What a bench keeps from one run to the next is
its `Session`: the ledger's state, the sequence, and what has been drawn. Variables last for one
run.
-/

namespace LedgerBench

inductive RunError where
  | batch (cause : BatchError)
  | submission (group : Nat) (cause : SubmitError)
  | panicked (reason : String)
  deriving DecidableEq, Repr

def RunError.message : RunError → String
  | .batch cause => cause.message
  | .submission group cause =>
    "failed to submit task group " ++ Text.natText group ++ ": " ++ cause.message
  | .panicked reason => reason

/-- What a bench keeps from one run to the next, and what it draws on. -/
structure Session (σ : Type) where
  ledger : σ
  sequence : Sequence := {}
  draws : Draws
  files : FileReader
  ids : IdSource
  drawn : Nat := 0

namespace Session

/-- The scope that a run starts from: it knows no variables. -/
def scope {σ : Type} (s : Session σ) : Scope where
  sequence := s.sequence
  files := s.files
  draws := s.draws

def draw {σ : Type} (s : Session σ) (count : Nat) : Session σ := { s with drawn := s.drawn + count }

/-- The session as a world leaves it. -/
def leave {σ : Type} (s : Session σ) (w : World σ) : Session σ :=
  { s with ledger := w.ledger, sequence := w.scope.sequence, draws := w.scope.draws }

end Session

/-- One iteration of a batch, with identifiers from the given number on: the calls' in order, then
the group's. -/
def groupTask (ids : IdSource) (first : Nat) (specs : List CallSpec) : Task :=
  .group ⟨ids (first + specs.length)⟩ false
    (specs.mapIdx fun i spec => .call { id := ⟨ids (first + i)⟩, spec })

namespace Bench

/-- The groups of a run, one for each iteration, with identifiers from the given number on. -/
def groupTasks {σ : Type} (b : Bench σ) (ids : IdSource) (first : Nat)
    (specs : List CallSpec) : List Task :=
  (List.range b.config.iterations).map fun i => groupTask ids (first + i * (specs.length + 1)) specs

/-- How many identifiers a run draws: its own, and one for each call and each group. -/
def identifiersPerRun {σ : Type} (b : Bench σ) (specs : List CallSpec) : Nat :=
  1 + b.config.iterations * (specs.length + 1)

/-- What is said of a run with more calls than can be counted. -/
def tooManyCalls : String :=
  "a run must have fewer than " ++ Text.natText Progress.countBound ++ " calls"

/-- What the calls of a run share. -/
def binding {σ : Type} (b : Bench σ) (mode : CallMode) : Binding where
  mode := mode
  policy := b.policy
  handlers := b.handlers
  targets := b.config.targets

/-- A run of some calls that is about to start, with its workers at the ready. It panics where its
groups, its queue or its workers cannot be made, or its calls not be counted. -/
def begin {σ : Type} (b : Bench σ) (s : Session σ) (specs : List CallSpec) (mode : CallMode)
    (startedAt : Timestamp) : Except RunError (Course σ) :=
  if Executor.maxItems < b.config.iterations then .error (.panicked Executor.tooManyItems)
  else
    let statistics? := RunStatistics.new? ⟨s.ids s.drawn⟩ b.config.iterations specs.length
      b.config.concurrency startedAt
    match statistics?, (Executor.new b.config.concurrency b.config.queueCapacity).start with
    | none, _ => .error (.panicked tooManyCalls)
    | _, .error reason => .error (.panicked reason)
    | some statistics, .ok executor =>
      let tasks := b.groupTasks s.ids (s.drawn + 1) specs
      .ok {
        world := { scope := s.scope, ledger := s.ledger }
        executor
        groups := tasks.map fun t => { todo := t.runIsolated (b.binding mode) }
        interval := b.config.submitInterval
        statistics }

/-- The statistics of a run that is over. -/
def conclude {σ : Type} (c : Course σ) (finishedAt : Timestamp) : Except RunError RunStatistics :=
  match c.rejected with
  | some (group, cause) => .error (.submission group cause)
  | none =>
    .ok { c.statistics with
      elapsed := c.world.clock
      totalAttempts := c.totalAttempts
      finishedAt := some finishedAt }

/-- Runs some calls. `timeOfDay` tells the time of day after some time since the start. -/
def runSpecs {σ : Type} (b : Bench σ) (s : Session σ) (specs : List CallSpec) (mode : CallMode)
    (timeOfDay : Duration → Timestamp) : Except RunError RunStatistics × Session σ :=
  if specs = [] then (.error (.batch .noCalls), s)
  else
    let drawn := s.draw (b.identifiersPerRun specs)
    match b.begin s specs mode (timeOfDay Duration.zero) with
    | .error e => (.error e, drawn)
    | .ok start =>
      let finish := start.drive b.ledger
      (conclude finish (timeOfDay finish.world.clock), drawn.leave finish.world)

def runBatch {σ : Type} (b : Bench σ) (s : Session σ) (batch : String) (mode : CallMode)
    (timeOfDay : Duration → Timestamp) : Except RunError RunStatistics × Session σ :=
  match CallSpec.readBatch batch with
  | .error cause => (.error (.batch cause), s)
  | .ok specs => b.runSpecs s specs mode timeOfDay

end Bench

end LedgerBench
