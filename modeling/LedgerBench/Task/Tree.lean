import LedgerBench.Task.Call
/-!
Tasks: calls, and groups of tasks that run as one.

The members of a group run one after the other. A member that panics is abandoned and the next one
runs, so a group itself never panics. A group reports once, however often it is invoked or
abandoned, and after its members have.
-/

namespace LedgerBench

/-- A stand-in for a task with a fixed course: every invocation counts the same number of attempts,
from some invocation on it panics, and it reports nothing. -/
structure StandIn where
  id : TaskId
  weight : Nat := 0
  error : Option CallError := none
  /-- What it says when it panics, and from which invocation on it does. -/
  panic : Option (String × Nat) := none
  /-- Invocations so far, and how many of them returned. -/
  invoked : Nat := 0
  returned : Nat := 0
  deriving DecidableEq, Repr

def StandIn.invoke (s : StandIn) : Ending × StandIn :=
  let s := { s with invoked := s.invoked + 1 }
  match s.panic with
  | some (reason, first) =>
    if first ≤ s.invoked then (.panicked reason, s)
      else (.returned, { s with returned := s.returned + 1 })
  | none => (.returned, { s with returned := s.returned + 1 })

/-- A call, a group of tasks, or a stand-in. -/
inductive Task where
  | call (task : CallTask)
  | group (id : TaskId) (completed : Bool) (members : List Task)
  | standIn (task : StandIn)

instance : Inhabited Task := ⟨.group default false []⟩

namespace Task

def id : Task → TaskId
  | call c => c.id
  | group id _ _ => id
  | standIn s => s.id

mutual

/-- Attempts made so far; a group's are those of its members together. A stand-in that has counted
to the bound begins again at zero. -/
def attempts : Task → Nat
  | call c => c.attempts
  | group _ _ members => attemptsOf members
  | standIn s => s.returned * s.weight % attemptBound

def attemptsOf : List Task → Nat
  | [] => 0
  | t :: rest => attempts t + attemptsOf rest

end

mutual

/-- The last error; a group's is the first of its members', in order. -/
def lastError : Task → Option CallError
  | call c => c.lastError
  | group _ _ members => firstError members
  | standIn s => s.error

def firstError : List Task → Option CallError
  | [] => none
  | t :: rest =>
    match lastError t with
    | some e => some e
    | none => firstError rest

end

/-- Reports a group with what its members now hold, unless it was reported before. -/
def completeGroup (id : TaskId) (completed : Bool) (members : List Task)
    (error : Option CallError) :
    Program Task := do
  if completed then pure (group id true members)
  else do
    Program.emit (.groupCompleted id members.length (attemptsOf members) error)
    pure (group id true members)

mutual

/-- Reports whatever a task still owes, after an invocation of it panicked. -/
def abandon (reason : String) : Task → Program Task
  | call c => do pure (call (← c.abandon reason))
  | group id completed members => do
    let members ← abandonAll reason [] members
    completeGroup id completed members
      (some ((firstError members).getD (CallError.panicked reason)))
  | standIn s => pure (standIn s)

/-- Abandons tasks in order; those already abandoned are held in reverse. -/
def abandonAll (reason : String) (past : List Task) : List Task → Program (List Task)
  | [] => pure past.reverse
  | t :: rest => do
    let t ← abandon reason t
    abandonAll reason (t :: past) rest

end

mutual

/-- Invokes a task. -/
def invoke (binding : Binding) : Task → Program (Ending × Task)
  | call c => do
    let (ending, c) ← c.invoke binding
    pure (ending, call c)
  | group id completed members => do
    let members ← invokeAll binding [] members
    let t ← completeGroup id completed members (firstError members)
    pure (.returned, t)
  | standIn s =>
    let (ending, s) := s.invoke
    pure (ending, standIn s)

/-- Invokes tasks in order and abandons each that panics; those already invoked are held in
reverse. -/
def invokeAll (binding : Binding) (past : List Task) : List Task → Program (List Task)
  | [] => pure past.reverse
  | t :: rest => do
    match ← invoke binding t with
    | (.returned, t) => invokeAll binding (t :: past) rest
    | (.panicked reason, t) => do
      let t ← abandon reason t
      invokeAll binding (t :: past) rest

end

/-- Invokes a task and abandons it if it panics. -/
def runIsolated (binding : Binding) (t : Task) : Program Task := do
  match ← t.invoke binding with
  | (.returned, t) => pure t
  | (.panicked reason, t) => abandon reason t

end Task

end LedgerBench
