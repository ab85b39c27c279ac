import LedgerBench.Text.Numeral
/-!
An executor: a fixed number of workers that take jobs from a bounded queue.

The executor is a state and the steps that can happen to it. Callers start it, submit jobs and stop
it; each worker goes through its loop one small step at a time. `Executor.step` performs a labelled
step where it is possible, so a list of labels is a schedule, and whatever holds of every schedule
holds of every way in which callers and workers can interleave.

  1. `start` opens a pool of workers with a queue of its own. An executor that was stopped can be
     started while workers of an earlier pool still finish.
  2. `submit` never waits: it is refused when no pool is open or the open pool's queue is full.
  3. `stop` takes the pool, signals its workers if the queue is to be dropped, closes the queue, and
     returns when every worker has left (`StopStage`).
  4. A worker checks for the signal, gets the lock of the queue, and waits for a job or the signal
     (`Worker`). With both at hand it may go on with either. A job that panics is abandoned before
     the worker goes on.
-/

namespace LedgerBench

/-- Where a worker stands in its loop. -/
inductive Worker (J : Type) where
  /-- About to look whether it was told to leave. -/
  | checking
  /-- Wants the lock of the queue. -/
  | waiting
  /-- Holds the lock and waits for a job, the signal, or the end of the queue. -/
  | selecting
  | running (job : J)
  | abandoning (job : J) (reason : String)
  | left
  deriving DecidableEq, Repr

/-- How far the stopping of a pool has come. -/
inductive StopStage where
  | open
  /-- Taken from the executor; `drain` says whether queued jobs are still to run. -/
  | requested (drain : Bool)
  /-- The workers have been told to leave. -/
  | signalled
  /-- No job can be queued any more, and the stopping waits for the workers. -/
  | closed
  | returned
  deriving DecidableEq, Repr

/-- The workers that were started together, and their queue. -/
structure Pool (J : Type) where
  queue : List J := []
  signal : Bool := false
  stage : StopStage := .open
  workers : List (Worker J)
  deriving DecidableEq, Repr

inductive JobRecord (J : Type) where
  | accepted (job : J)
  | begun (job : J)
  | returned (job : J)
  | panicked (job : J) (reason : String)
  | abandoned (job : J) (reason : String)
  deriving DecidableEq, Repr

inductive SubmitError where
  | queueFull (capacity : Nat)
  | notRunning
  deriving DecidableEq, Repr

def SubmitError.message : SubmitError → String
  | .queueFull capacity => "executor queue is full (" ++ Text.natText capacity ++ " slots)"
  | .notRunning => "executor is not running"

/-- An executor: its limits, every pool started so far, whether the last of them is open, and what
has happened to its jobs, the latest first. -/
structure Executor (J : Type) where
  concurrency : Nat
  capacity : Nat
  pools : List (Pool J) := []
  isRunning : Bool := false
  log : List (JobRecord J) := []
  deriving DecidableEq, Repr

namespace Executor

/-- The longest queue that can be made. -/
def maxQueue : Nat := 2 ^ 61 - 1

/-- What starting says when the queue cannot be made. -/
def queueTooLong : String :=
  "a queue may not have more than " ++ Text.natText maxQueue ++ " slots"

/-- The most items that a list kept in memory can have. -/
def maxItems : Nat := 2 ^ 60 - 1

/-- What is said of a list that cannot be kept in memory. -/
def tooManyItems : String := "a list may not have more than " ++ Text.natText maxItems ++ " items"

/-- An executor that is not running; both limits are raised to at least one. -/
def new {J : Type} (concurrency capacity : Nat) : Executor J where
  concurrency := max concurrency 1
  capacity := max capacity 1

/-- Opens a pool, unless one is open. It panics where the queue or the workers cannot be made. -/
def start {J : Type} (e : Executor J) : Except String (Executor J) :=
  if e.isRunning then .ok e
  else if maxQueue < e.capacity then .error queueTooLong
  else if maxItems < e.concurrency then .error tooManyItems
  else
    .ok { e with
      pools := e.pools ++ [{ workers := List.replicate e.concurrency .checking }]
      isRunning := true }

/-- Queues a job in the open pool, without waiting for a slot. -/
def submit {J : Type} (e : Executor J) (job : J) : Except SubmitError (Executor J) :=
  match e.isRunning, e.pools.getLast? with
  | true, some pool =>
    if e.capacity ≤ pool.queue.length then .error (.queueFull e.capacity)
    else
      .ok { e with
        pools := e.pools.dropLast ++ [{ pool with queue := pool.queue ++ [job] }]
        log := .accepted job :: e.log }
  | _, _ => .error .notRunning

/-- Takes the open pool away from the executor. Where none is open there is nothing to stop. -/
def stop {J : Type} (e : Executor J) (drain : Bool) : Executor J :=
  match e.isRunning, e.pools.getLast? with
  | true, some pool =>
    { e with
      pools := e.pools.dropLast ++ [{ pool with stage := .requested drain }]
      isRunning := false }
  | _, _ => e

end Executor

inductive WorkerMove where
  | check
  | lock
  /-- Notices the signal while it waits for a job. -/
  | notice
  | receive
  /-- Finds the queue closed and empty. -/
  | leave
  | finish
  | panic (reason : String)
  | abandon
  deriving DecidableEq, Repr

namespace Pool

def isLocked {J : Type} (p : Pool J) : Bool :=
  p.workers.any fun w => match w with
    | .selecting => true
    | _ => false

def isClosed {J : Type} (p : Pool J) : Bool := p.stage = .closed ∨ p.stage = .returned

def allLeft {J : Type} (p : Pool J) : Bool :=
  p.workers.all fun w => match w with
    | .left => true
    | _ => false

/-- The next stage of stopping, where it can be reached. -/
def advanceStop? {J : Type} (p : Pool J) : Option (Pool J) :=
  match p.stage with
  | .open => none
  | .requested true => some { p with stage := .closed }
  | .requested false => some { p with stage := .signalled, signal := true }
  | .signalled => some { p with stage := .closed }
  | .closed => if p.allLeft then some { p with stage := .returned } else none
  | .returned => none

/-- A worker's step, where it is possible, and what it adds to the log. -/
def moveWorker? {J : Type} (p : Pool J) (index : Nat) (move : WorkerMove) :
    Option (Pool J × List (JobRecord J)) :=
  let goes := fun (w : Worker J) => { p with workers := p.workers.set index w }
  match p.workers[index]?, move with
  | some .checking, .check => some (goes (if p.signal then .left else .waiting), [])
  | some .waiting, .lock => if p.isLocked then none else some (goes .selecting, [])
  | some .selecting, .notice => if p.signal then some (goes .checking, []) else none
  | some .selecting, .receive =>
    match p.queue with
    | job :: queue => some ({ goes (.running job) with queue }, [.begun job])
    | [] => none
  | some .selecting, .leave =>
    if p.queue.isEmpty && p.isClosed then some (goes .left, []) else none
  | some (.running job), .finish => some (goes .checking, [.returned job])
  | some (.running job), .panic reason =>
    some (goes (.abandoning job reason), [.panicked job reason])
  | some (.abandoning job reason), .abandon => some (goes .checking, [.abandoned job reason])
  | _, _ => none

end Pool

namespace Executor

/-- A step of an executor: of a caller, of a stop under way, or of a worker. -/
inductive Label (J : Type) where
  | start
  | submit (job : J)
  | stop (drain : Bool)
  | advanceStop (pool : Nat)
  | work (pool worker : Nat) (move : WorkerMove)
  deriving DecidableEq, Repr

/-- Performs a step where it is possible. A refused job changes nothing. -/
def step {J : Type} (e : Executor J) : Label J → Option (Executor J)
  | .start =>
    match e.start with
    | .ok e => some e
    | .error _ => none
  | .submit job =>
    match e.submit job with
    | .ok e => some e
    | .error _ => some e
  | .stop drain => some (e.stop drain)
  | .advanceStop index =>
    match e.pools[index]? with
    | some pool => pool.advanceStop?.map fun pool => { e with pools := e.pools.set index pool }
    | none => none
  | .work index worker move =>
    match e.pools[index]? with
    | some pool =>
      (pool.moveWorker? worker move).map fun (pool, records) =>
        { e with pools := e.pools.set index pool, log := records ++ e.log }
    | none => none

def run {J : Type} (e : Executor J) (labels : List (Label J)) : Option (Executor J) :=
  labels.foldlM step e

end Executor

end LedgerBench
