import LedgerBench.Task.Event
import LedgerBench.Call.Wire
import LedgerBench.Timestamp
/-!
What a run adds up to.

Statistics are a fold over the events of the tasks: every event is recorded once, in the order in
which it arrives (`record`). Nothing in them depends on anything but the events, the sizes given at
the start, and what is known when the run is over.
-/

namespace LedgerBench

/-- A call that ended in an error, or an attempt that was followed by another one. -/
structure FailedInvocation where
  task : TaskId
  function : String
  /-- The attempts made when the error was recorded. -/
  attempts : Nat
  error : CallError
  deriving DecidableEq, Repr

/-- The number of an attempt that others went before, counted from one. It has 32 bits. -/
def FailedInvocation.attemptNumber (before : Nat) : Nat := (before + 1) % Task.attemptBound

structure CallResponse where
  task : TaskId
  function : String
  transactionId : Option String
  /-- The payload of a query as text. -/
  payload : Option String
  deriving DecidableEq, Repr

def CallResponse.ofOutcome (o : Outcome) : CallResponse where
  task := o.task
  function := o.function
  transactionId := o.transactionId
  payload := o.payload.map Bytes.decodeLossy

structure DurationSummary where
  count : Nat
  average : Duration
  min : Duration
  max : Duration
  deriving DecidableEq, Repr

/-- Why there is no mean of some durations. -/
inductive MeanError where
  /-- They add up to more than a duration can hold. -/
  | sumOverflow
  /-- Their number is zero in 32 bits. -/
  | noCount
  deriving DecidableEq, Repr

/-- The number of samples that the mean is taken over has 32 bits. -/
def DurationSummary.countBound : Nat := 2 ^ 32

/-- The summary of some durations; none of no durations at all. The mean is rounded down. -/
def DurationSummary.ofSamples : List Duration → Except MeanError (Option DurationSummary)
  | [] => .ok none
  | d :: rest =>
    match Duration.sum? (d :: rest) with
    | none => .error .sumOverflow
    | some total =>
      match total.dividedBy? ((rest.length + 1) % countBound) with
      | none => .error .noCount
      | some average =>
        .ok (some {
          count := rest.length + 1
          average
          min := rest.foldl Duration.min d
          max := rest.foldl Duration.max d })

structure RunStatistics where
  run : RunId
  concurrency : Nat
  expected : Nat
  groups : Nat
  groupsCompleted : Nat := 0
  started : Nat := 0
  succeeded : Nat := 0
  failures : List FailedInvocation := []
  responses : List CallResponse := []
  /-- The errors of attempts that were followed by another one. -/
  transientErrors : List FailedInvocation := []
  totalAttempts : Nat := 0
  successDurations : List Duration := []
  failureDurations : List Duration := []
  startedAt : Timestamp
  finishedAt : Option Timestamp := none
  /-- The time from the first submission to the last completion. -/
  elapsed : Duration := Duration.zero
  deriving DecidableEq, Repr

namespace RunStatistics

def new (run : RunId) (groups entries concurrency : Nat) (startedAt : Timestamp) :
    RunStatistics where
  run := run
  concurrency := concurrency
  expected := groups * entries
  groups := groups
  startedAt := startedAt

/-- The statistics of a run that is about to start, if the number of its calls is a count. -/
def new? (run : RunId) (groups entries concurrency : Nat) (startedAt : Timestamp) :
    Option RunStatistics :=
  if groups * entries < Progress.countBound then some (new run groups entries concurrency startedAt)
    else none

/-- The retried errors of an outcome, each with the number of the attempt it belongs to. -/
def retriedErrors (o : Outcome) : List FailedInvocation :=
  o.retried.mapIdx fun i error =>
    { task := o.task, function := o.function, attempts := FailedInvocation.attemptNumber i, error }

def recordOutcome (s : RunStatistics) (o : Outcome) : RunStatistics :=
  let s := { s with transientErrors := s.transientErrors ++ retriedErrors o }
  match o.error with
  | none =>
    { s with
      succeeded := s.succeeded + 1
      successDurations := s.successDurations ++ [o.duration]
      responses := s.responses ++ [CallResponse.ofOutcome o] }
  | some error =>
    { s with
      failures := s.failures ++
        [{ task := o.task, function := o.function, attempts := o.attempts, error }]
      failureDurations := s.failureDurations ++ [o.duration] }

def record (s : RunStatistics) : Event → RunStatistics
  | .started _ _ => { s with started := s.started + 1 }
  | .completed o => s.recordOutcome o
  | .groupCompleted _ _ _ _ => { s with groupsCompleted := s.groupsCompleted + 1 }

def recordAll (s : RunStatistics) (events : List Event) : RunStatistics := events.foldl record s

/-- How far the run has come. -/
def progress (s : RunStatistics) : Progress where
  expected := s.expected
  started := s.started
  succeeded := s.succeeded
  failed := s.failures.length

/-- Calls that have ended, successful or not. -/
def invocations (s : RunStatistics) : Nat := s.succeeded + s.failures.length

def isSuccess (s : RunStatistics) : Bool := s.failures.isEmpty

/-- Calls per second of the elapsed time, or zero where no time elapsed. -/
def throughput (s : RunStatistics) : Binary64 :=
  let secs := s.elapsed.asSeconds
  if Binary64.zero.lt secs then (Binary64.ofNat s.invocations).div secs else Binary64.zero

def allDurations (s : RunStatistics) : List Duration := s.successDurations ++ s.failureDurations

end RunStatistics

/-! ## JSON form -/

namespace Duration

def toJson (d : Duration) : Json :=
  Json.record [("secs", Json.ofNat d.secs), ("nanos", Json.ofNat d.subsecNanos)]

end Duration

namespace FailedInvocation

def toJson (f : FailedInvocation) : Json :=
  Json.record [("task_id", f.task.toJson), ("function", Json.text f.function),
    ("attempts", Json.ofNat f.attempts), ("error", f.error.toJson)]

end FailedInvocation

namespace CallResponse

/-- A member that is left out where there is no text. -/
def optional (name : String) : Option String → List (String × Json)
  | some s => [(name, Json.text s)]
  | none => []

def toJson (r : CallResponse) : Json :=
  Json.record ([("task_id", r.task.toJson), ("function", Json.text r.function)]
    ++ optional "transaction_id" r.transactionId ++ optional "payload" r.payload)

end CallResponse

namespace DurationSummary

def toJson (s : DurationSummary) : Json :=
  Json.record [("count", Json.ofNat s.count), ("average", s.average.toJson), ("min", s.min.toJson),
    ("max", s.max.toJson)]

end DurationSummary

namespace RunStatistics

def toJson (s : RunStatistics) : Json :=
  Json.record [
    ("run_id", s.run.toJson),
    ("concurrency", Json.ofNat s.concurrency),
    ("expected", Json.ofNat s.expected),
    ("groups", Json.ofNat s.groups),
    ("groups_completed", Json.ofNat s.groupsCompleted),
    ("started", Json.ofNat s.started),
    ("succeeded", Json.ofNat s.succeeded),
    ("failures", .array (s.failures.map FailedInvocation.toJson)),
    ("responses", .array (s.responses.map CallResponse.toJson)),
    ("transient_errors", .array (s.transientErrors.map FailedInvocation.toJson)),
    ("total_attempts", Json.ofNat s.totalAttempts),
    ("success_durations", .array (s.successDurations.map Duration.toJson)),
    ("failure_durations", .array (s.failureDurations.map Duration.toJson)),
    ("started_at", Json.text s.startedAt.text),
    ("finished_at", Json.ofText? (s.finishedAt.map Timestamp.text)),
    ("elapsed", s.elapsed.toJson)]

end RunStatistics

end LedgerBench
