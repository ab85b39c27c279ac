import LedgerBench.Run.Statistics
import LedgerBench.Binary64.Decimal
/-!
The texts that report a run.

A run of several calls is reported by a summary block, a run of one successful call by a line that
names what it returned, and every failed call and retried attempt by a line of its own.
`ProgressReporter` hands out snapshots at a fixed interval while a run goes on.
-/

namespace LedgerBench

namespace Report

def seconds (d : Duration) : String := d.asSeconds.fixed 3 ++ "s"

/-- The column at which the values of a summary begin. -/
def labelWidth : Nat := 18

/-- A line of a summary: the label, filled up to the column of the values, and the value. -/
def line (label value : String) : String :=
  String.ofList (Text.padRight ' ' labelWidth label.toList) ++ value ++ "\n"

/-- A line for a figure of a summary of durations, if there is one. -/
def durationLine (label : String) (pick : DurationSummary → Duration) :
    Option DurationSummary → String
  | some s => line label (seconds (pick s))
  | none => ""

/-- The summary of a run of more than one call. -/
def summaryBlock (s : RunStatistics) : Except MeanError (Option String) :=
  if s.invocations ≤ 1 then .ok none
  else do
    let all ← DurationSummary.ofSamples s.allDurations
    let succeeded ← DurationSummary.ofSamples s.successDurations
    let failed ← DurationSummary.ofSamples s.failureDurations
    pure (some (
      line "Invocations:" (Text.natText s.invocations)
        ++ line "Concurrency:" (Text.natText s.concurrency)
        ++ line "Successful:" (Text.natText s.succeeded)
        ++ line "Failed:" (Text.natText s.failures.length)
        ++ line "Total attempts:" (Text.natText s.totalAttempts)
        ++ line "Duration:" (seconds s.elapsed)
        ++ line "Rate:" (s.throughput.fixed 2 ++ "/s")
        ++ durationLine "Average:" DurationSummary.average all
        ++ durationLine "Average success:" DurationSummary.average succeeded
        ++ durationLine "Average fail:" DurationSummary.average failed
        ++ durationLine "Min success:" DurationSummary.min succeeded
        ++ durationLine "Max success:" DurationSummary.max succeeded
        ++ durationLine "Min fail:" DurationSummary.min failed
        ++ durationLine "Max fail:" DurationSummary.max failed))

/-- A part of a line that is left out where there is nothing to name. -/
def named (label : String) : Option String → String
  | some s => label ++ s
  | none => ""

/-- The line for a run of one call that succeeded, with the transaction it committed or the payload
it returned. -/
def responseLine (s : RunStatistics) : Option String :=
  match s.responses with
  | [r] =>
    if s.invocations = 1 then
      some ("invocation succeeded after " ++ Text.natText s.totalAttempts ++ " attempt(s)"
        ++ named ", transaction " r.transactionId ++ named ", payload: " r.payload)
    else none
  | _ => none

def failureLine (f : FailedInvocation) : String :=
  "  " ++ f.task.text ++ " " ++ f.function ++ " after " ++ Text.natText f.attempts ++
    " attempt(s): "
    ++ f.error.text ++ "\n"

/-- The line of an attempt that was followed by another one. -/
def retriedLine (f : FailedInvocation) : String :=
  "  " ++ f.task.text ++ " " ++ f.function ++ " attempt " ++ Text.natText f.attempts ++ ": "
    ++ f.error.text ++ "\n"

/-- A heading over some lines, left out where there are none. -/
def titled (title : String) (lines : List String) : String :=
  if lines = [] then "" else title ++ "\n" ++ String.join lines

/-- The failed calls of a run and its retried attempts, if there are any. -/
def failureReport (s : RunStatistics) : Option String :=
  if s.failures = [] ∧ s.transientErrors = [] then none
  else
    some (titled "Failed invocations:" (s.failures.map failureLine)
      ++ titled "Retried errors:" (s.transientErrors.map retriedLine))

end Report

/-- Hands out a snapshot of a run after every interval, until it is stopped. It waits between two
snapshots, and so no longer than the longest wait. -/
structure ProgressReporter where
  interval : Duration
  elapsed : Duration := Duration.zero
  stopped : Bool := false
  deriving DecidableEq, Repr

namespace ProgressReporter

/-- The time between two snapshots. -/
def spacing (r : ProgressReporter) : Duration := Duration.min Duration.longestWait r.interval

/-- How many snapshots fall due before some time has passed. One that falls due just then comes
later; without an interval there are none. -/
def ticksBefore (r : ProgressReporter) (elapsed : Duration) : Nat :=
  (elapsed.nanos - 1) / r.spacing.nanos

/-- Lets time pass: the snapshots taken meanwhile, and the reporter after it. -/
def advance (r : ProgressReporter) (time : Duration) (s : RunStatistics) :
    List Progress × ProgressReporter :=
  let later := { r with elapsed := r.elapsed + time }
  if r.stopped then ([], later)
  else (List.replicate (later.ticksBefore later.elapsed - r.ticksBefore r.elapsed) s.progress,
    later)

def stop (r : ProgressReporter) : ProgressReporter := { r with stopped := true }

end ProgressReporter

end LedgerBench
