import LedgerBench.Executor.Basic
/-!
A trial run of an executor with jobs whose course is known.

A job of a trial ends at once, panics at once, or waits until it is released. Several jobs may have
one name, and a release is for the one that was submitted last. `settle` drives the executor by one
fixed schedule until nothing can proceed: stops first, then jobs that need not wait, then workers
that have something to do, in the order of their numbers. So a job that is released makes room
before the next one is taken, and of the workers without a job one waits for the queue and the
others for its lock. What has been observed is read off the executor's log, name by name.
-/

namespace LedgerBench

/-- What a job of a trial does. -/
inductive TrialKind where
  | gate
  | instant
  | panic
  deriving DecidableEq, Repr

structure TrialJob where
  name : String
  kind : TrialKind
  /-- How many jobs were submitted before it. -/
  number : Nat
  deriving DecidableEq, Repr

/-- What a job of a trial says when it panics. -/
def TrialJob.reason (j : TrialJob) : String := j.name ++ " exploded"

structure Trial where
  executor : Executor TrialJob
  /-- The jobs that were submitted, accepted or not, the latest first. -/
  submitted : List TrialJob := []
  released : List Nat := []
  /-- The most gates that ran at once. -/
  peak : Nat := 0
  /-- How many stops found nothing to stop. -/
  idleStops : Nat := 0

/-- The next step of a worker that is not running a job, where its pool has something for it to do.
A worker that has both the signal and a job at hand may go on with either: here every other worker
goes on with the job. -/
def Pool.idleMove? {J : Type} (p : Pool J) (worker : Nat) : Worker J → Option WorkerMove
  | .abandoning _ _ => some .abandon
  | .checking => some .check
  | .waiting => if p.isLocked then none else some .lock
  | .selecting =>
    if p.signal && (p.queue.isEmpty || worker % 2 = 1) then some .notice
    else if !p.queue.isEmpty then some .receive
    else if p.isClosed then some .leave
    else none
  | .running _ | .left => none

namespace Trial

def running (t : Trial) : List (Nat × Nat × TrialJob) :=
  (t.executor.pools.zipIdx.map fun (pool, p) =>
    pool.workers.zipIdx.filterMap fun (w, i) => match w with
      | .running job => some (p, i, job)
      | _ => none).flatten

def gatesRunning (t : Trial) : Nat := t.running.countP fun (_, _, job) => job.kind == .gate

/-- Whether a running job goes on by itself. -/
def mayEnd (t : Trial) (job : TrialJob) : Bool :=
  job.kind != .gate || t.released.contains job.number

/-- The next stage of a stop that can be reached. -/
def stopMove? (t : Trial) : Option (Executor.Label TrialJob) :=
  t.executor.pools.zipIdx.findSome? fun (pool, p) =>
    if pool.advanceStop?.isSome then some (.advanceStop p) else none

def endMove? (t : Trial) : Option (Executor.Label TrialJob) :=
  t.running.findSome? fun (p, i, job) =>
    if t.mayEnd job then some (.work p i (if job.kind = .panic then .panic job.reason else .finish))
    else none

def idleMove? (t : Trial) : Option (Executor.Label TrialJob) :=
  t.executor.pools.zipIdx.findSome? fun (pool, p) =>
    pool.workers.zipIdx.findSome? fun (w, i) => (pool.idleMove? i w).map (.work p i)

/-- The step that the fixed schedule takes next. -/
def nextMove? (t : Trial) : Option (Executor.Label TrialJob) :=
  t.stopMove? <|> t.endMove? <|> t.idleMove?

/-- Notes how many gates run at once when a job has just begun. -/
def observe (t : Trial) (label : Executor.Label TrialJob) : Trial :=
  match label with
  | .work _ _ .receive => { t with peak := max t.peak t.gatesRunning }
  | _ => t

/-- A number of steps after which the schedule has come to rest: each job and each worker takes part
in a few. -/
def budget (t : Trial) : Nat :=
  (t.executor.pools.map fun pool => 8 * (pool.queue.length + pool.workers.length) + 8).sum

/-- Takes up to a number of steps of the fixed schedule. -/
def drive : Nat → Trial → Trial
  | 0, t => t
  | steps + 1, t =>
    match t.nextMove? with
    | none => t
    | some label =>
      match t.executor.step label with
      | none => t
      | some executor => drive steps (observe { t with executor } label)

/-- Lets everything proceed until nothing can. -/
def settle (t : Trial) : Trial := drive t.budget t

def start (t : Trial) : Except String Trial :=
  match t.executor.start with
  | .ok executor => .ok { t with executor }
  | .error reason => .error reason

def submit (t : Trial) (name : String) (kind : TrialKind) : Except SubmitError Unit × Trial :=
  let job : TrialJob := { name, kind, number := t.submitted.length }
  let t := { t with submitted := job :: t.submitted }
  match t.executor.submit job with
  | .ok executor => (.ok (), { t with executor })
  | .error e => (.error e, t)

/-- Releases the last job submitted under a name and lets everything proceed. -/
def release (t : Trial) (name : String) : Trial :=
  settle { t with
    released := match t.submitted.find? fun job => job.name == name with
      | some job => job.number :: t.released
      | none => t.released }

/-- Begins to stop the executor and lets everything proceed. -/
def stop (t : Trial) (drain : Bool) : Trial :=
  settle { t with
    executor := t.executor.stop drain
    idleStops := if t.executor.isRunning then t.idleStops else t.idleStops + 1 }

/-- The names under which jobs have begun, each once. -/
def startedJobs (t : Trial) : List String :=
  (t.executor.log.reverse.filterMap fun record => match record with
    | .begun job => some job.name
    | _ => none).eraseDups

def doneJobs (t : Trial) : List String :=
  (t.executor.log.reverse.filterMap fun record => match record with
    | .returned job => some job.name
    | _ => none).eraseDups

/-- The names under which jobs were abandoned, each once, and why. -/
def abandonedJobs (t : Trial) : List (String × String) :=
  (t.executor.log.reverse.filterMap fun record => match record with
    | .abandoned job reason => some (job.name, reason)
    | _ => none).eraseDups

def stopsFinished (t : Trial) : Nat :=
  t.idleStops + t.executor.pools.countP fun pool => pool.stage = .returned

end Trial

end LedgerBench
