import LedgerBench.Executor.Basic
import LedgerBench.Run.Statistics
import LedgerBench.Task.World
/-!
A run under way, and the steps that can happen to it.

The groups of a run are the jobs of an executor. What a group has still to do is a program, and
workers that run different groups take turns effect by effect, in any order; so a run is a state
and a partial function from labels to later states (`Course.step`), a schedule is a list of
labels, and what holds of every schedule holds of every way in which groups can interleave.

  1. `submit` queues the next group, once the pause since the last one is over.
  2. `work` is a step of a worker that takes a job from the queue or has finished one.
  3. `act` is the next move of a group that is on a worker and need not wait. Its effect is
     answered; but a request to the ledger first has to arrive there, and is answered by a move
     of its own once it is due. Other groups move in between.
  4. `record` moves the oldest event that has not been taken into the statistics.
  5. `wait` moves the clock to the next time at which something can go on.
-/

namespace LedgerBench

/-- A group of a run, over a ledger with states `σ`: what it has still to do, when it can go on,
and what serves its request while one is under way. -/
structure GroupCourse (σ : Type) where
  todo : Program Task
  wakeAt : Duration := Duration.zero
  service : Option (Service σ) := none

section

variable {σ : Type}

def GroupCourse.isDone (g : GroupCourse σ) : Bool :=
  match g.todo with
  | .done _ => true
  | .act _ _ => false

/-- Attempts of a group's calls, once it is done. -/
def GroupCourse.attempts (g : GroupCourse σ) : Nat :=
  match g.todo with
  | .done t => t.attempts
  | .act _ _ => 0

/-- The request that has still to arrive before an effect is answered. -/
def GroupCourse.unsent? (effect : Effect) : Option (Service σ) → Option (CallMode × Request)
  | none => effect.call?
  | some _ => none

end

/-- A run under way, over a ledger with states `σ`. -/
structure Course (σ : Type) where
  world : World σ
  /-- The workers; their jobs are numbers of groups. -/
  executor : Executor Nat
  groups : List (GroupCourse σ)
  interval : Duration
  submitted : Nat := 0
  /-- When the next group may be submitted. -/
  nextSubmission : Duration := Duration.zero
  /-- The group that was refused, and why. -/
  rejected : Option (Nat × SubmitError) := none
  statistics : RunStatistics

inductive RunLabel where
  | submit
  | work (worker : Nat) (move : WorkerMove)
  | act (group : Nat)
  | record
  | wait
  deriving DecidableEq, Repr

namespace Course

def isRunning {σ : Type} (c : Course σ) (group : Nat) : Bool :=
  c.executor.pools.any fun pool => pool.workers.contains (.running group)

def maySubmit {σ : Type} (c : Course σ) : Bool :=
  c.rejected.isNone && c.submitted < c.groups.length && c.nextSubmission ≤ c.world.clock

def submitNext {σ : Type} (c : Course σ) : Course σ :=
  match c.executor.submit c.submitted with
  | .ok executor =>
    { c with executor, submitted := c.submitted + 1,
             nextSubmission := c.world.clock + c.interval.waited }
  | .error cause => { c with rejected := some (c.submitted, cause) }

/-- Whether a worker is at the end of the group it runs. -/
def hasFinished {σ : Type} (c : Course σ) (worker : Nat) : Bool :=
  match c.executor.pools[0]? with
  | none => false
  | some pool =>
    match pool.workers[worker]? with
    | some (Worker.running group) =>
      match c.groups[group]? with
      | some g => g.isDone && g.wakeAt ≤ c.world.clock
      | none => false
    | _ => false

/-- Whether a worker's step is one that a run gives rise to. Groups do not panic and workers are not
told to leave. -/
def admits {σ : Type} (c : Course σ) (worker : Nat) : WorkerMove → Bool
  | .check | .lock | .receive => true
  | .finish => c.hasFinished worker
  | _ => false

/-- The run after the request of a group has arrived. -/
def send {σ : Type} (c : Course σ) (group : Nat) (todo : Program Task) (a : Arrival σ) : Course σ :=
  let g := { todo, wakeAt := c.world.clock + a.took, service := some a.service }
  { c with world := { c.world with ledger := a.next }, groups := c.groups.set group g }

/-- The run after the effect of a group was answered. -/
def goOn {σ α : Type} (c : Course σ) (group : Nat) (next : α → Program Task) (a : Answered σ α) :
    Course σ :=
  let g := { todo := next a.answer, wakeAt := c.world.clock + a.took }
  { c with world := a.world, groups := c.groups.set group g }

/-- The run after the next move of a group, where it has one and need not wait. -/
def act? {σ : Type} (ledger : Ledger σ) (c : Course σ) (group : Nat) : Option (Course σ) :=
  match c.groups[group]? with
  | some { todo := .act effect next, wakeAt, service } =>
    if c.isRunning group && wakeAt ≤ c.world.clock then
      match GroupCourse.unsent? effect service with
      | some (mode, request) =>
        some (c.send group (.act effect next) (ledger.arrive mode request c.world.ledger))
      | none => some (c.goOn group next (c.world.answer (service.getD ledger.alone) effect))
    else none
  | _ => none

/-- The run after its oldest untaken event was recorded. -/
def record? {σ : Type} (c : Course σ) : Option (Course σ) :=
  match c.world.reported.getLast? with
  | some event =>
    some { c with
      world := { c.world with reported := c.world.reported.dropLast }
      statistics := c.statistics.record event }
  | none => none

def dueTimes {σ : Type} (c : Course σ) : List Duration :=
  c.groups.map GroupCourse.wakeAt ++ (if c.submitted < c.groups.length then [c.nextSubmission]
    else [])

/-- The times to come at which something is due. -/
def futureTimes {σ : Type} (c : Course σ) : List Duration :=
  c.dueTimes.filter fun t => c.world.clock < t

/-- The run at the next time at which something is due. -/
def wait? {σ : Type} (c : Course σ) : Option (Course σ) :=
  match c.futureTimes with
  | [] => none
  | t :: rest => some { c with world := { c.world with clock := rest.foldl Duration.min t } }

/-- Performs a step where it is possible. -/
def step {σ : Type} (ledger : Ledger σ) (c : Course σ) : RunLabel → Option (Course σ)
  | .submit => if c.maySubmit then some c.submitNext else none
  | .work worker move =>
    if c.admits worker move then
      (c.executor.step (.work 0 worker move)).map fun executor => { c with executor }
    else none
  | .act group => c.act? ledger group
  | .record => c.record?
  | .wait => c.wait?

/-- Performs the steps of a schedule in order, as long as each is possible. -/
def run {σ : Type} (ledger : Ledger σ) (c : Course σ) (labels : List RunLabel) :
    Option (Course σ) :=
  labels.foldlM (step ledger) c

/-- Whether the run is over: every group's end has been recorded, or a group was refused. -/
def isOver {σ : Type} (c : Course σ) : Bool :=
  c.rejected.isSome || c.groups.length ≤ c.statistics.groupsCompleted

def totalAttempts {σ : Type} (c : Course σ) : Nat := (c.groups.map GroupCourse.attempts).sum

end Course

end LedgerBench
