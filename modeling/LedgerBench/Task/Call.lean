import LedgerBench.Task.Program
import LedgerBench.Template.Expand
import LedgerBench.Retry.Loop
import LedgerBench.Call.Handler
/-!
One call as a task.

A call expands its arguments once and then makes attempts with the same request until one settles
it. A submitted call is settled by a validation code; a query is settled by its delivery, and its
response then goes through the handlers, once and without another attempt. Either way the call
reports its outcome exactly once per invocation. An invocation that panics leaves the call
unreported; `abandon` then reports it as failed.
-/

namespace LedgerBench

/-- What every call of a run shares. -/
structure Binding where
  mode : CallMode
  policy : RetryPolicy := {}
  handlers : HandlerChain := []
  targets : List Target := []

inductive Ending where
  | returned
  | panicked (reason : String)
  deriving DecidableEq, Repr

/-- What a settled call left behind. -/
structure Settled where
  transactionId : Option String := none
  payload : Option Bytes := none
  deriving DecidableEq, Repr

/-- A call and its own bookkeeping. -/
structure CallTask where
  id : TaskId
  spec : CallSpec
  /-- Attempts of the last invocation; none before the first. -/
  attempts : Nat := 0
  /-- The error of the last reported outcome. -/
  lastError : Option CallError := none
  /-- When the last invocation began. -/
  startedAt : Option Duration := none
  /-- Whether an outcome was reported since the last invocation began. -/
  reported : Bool := false
  deriving DecidableEq, Repr

namespace CallTask

/-- The result that a committed transaction's validation code stands for. -/
def classify (response : TxResponse) : Attempt String :=
  if response.code.isValid then .ok response.transactionId
  else
    .failed {
      kind := if response.code.isTransient then .transient else .persistent
      message := "transaction invalidated with code " ++ response.code.text
      transactionId := some response.transactionId }

/-- One attempt to submit: an answer is classified, an error is the transport's. -/
def submitAttempt (request : Request) : Program (Attempt String) := do
  match ← Program.perform (.submit request) with
  | .answered response => pure (classify response)
  | .failed e => pure (.failed e.toCallError)
  | .panicked reason => pure (.panicked reason)

/-- One attempt to query: any answer settles the delivery. -/
def queryAttempt (request : Request) : Program (Attempt QueryResponse) := do
  match ← Program.perform (.query request) with
  | .answered response => pure (.ok response)
  | .failed e => pure (.failed e.toCallError)
  | .panicked reason => pure (.panicked reason)

/-- A delivered query after a verdict: accepted with its payload, or ended by the handler that
decided. -/
def settledAs (response : QueryResponse) : Verdict → Attempt Settled
  | .accepted => .ok { payload := some response.payload }
  | .rejected e => .failed e
  | .panicked reason => .panicked reason

def submit (policy : RetryPolicy) (request : Request) : Program (Retried Settled) := do
  let r ← retry policy Program.sleep (submitAttempt request)
  pure {
    result := match r.result with
      | .ok transactionId => .ok { transactionId := some transactionId }
      | .failed e => .failed e
      | .panicked reason => .panicked reason
    errors := r.errors }

/-- Sends a query until it is delivered, and then has the response judged. As for `retry`, it is
left open who makes an attempt, waits and judges. -/
def queryIn {m : Type → Type} [Monad m] (policy : RetryPolicy) (sleep : Duration → m Unit)
    (attempt : m (Attempt QueryResponse)) (judge : QueryResponse → m Verdict) :
    m (Retried Settled) := do
  let r ← retry policy sleep attempt
  match r.result with
  | .ok response => do
    let verdict ← judge response
    pure { result := settledAs response verdict, errors := r.errors }
  | .failed e => pure { result := .failed e, errors := r.errors }
  | .panicked reason => pure { result := .panicked reason, errors := r.errors }

/-- A query that is judged by its handlers. -/
def query (policy : RetryPolicy) (handlers : HandlerChain) (request : Request) :
    Program (Retried Settled) :=
  queryIn policy Program.sleep (queryAttempt request) fun response =>
    pure (handlers.judge response)

def attempt (binding : Binding) (request : Request) : Program (Retried Settled) :=
  match binding.mode with
  | .submit => submit binding.policy request
  | .query => query binding.policy binding.handlers request

/-- The time since the last invocation began; none before the first. -/
def elapsed (c : CallTask) (now : Duration) : Duration :=
  match c.startedAt with
  | some start => now - start
  | none => Duration.zero

/-- Reports an outcome, unless one was reported since the invocation began. -/
def complete (c : CallTask) (retried : List CallError) (result : Except CallError Settled) :
    Program CallTask := do
  let now ← Program.now
  if c.reported then pure c
  else do
    let settled := match result with
      | .ok settled => settled
      | .error _ => {}
    let error := match result with
      | .ok _ => none
      | .error e => some e
    Program.emit (.completed {
      task := c.id, function := c.spec.function, attempts := c.attempts
      duration := c.elapsed now, error, retried
      transactionId := settled.transactionId, payload := settled.payload })
    pure { c with reported := true, lastError := error }

def request (binding : Binding) (c : CallTask) (args : List String) : Request where
  task := c.id
  function := c.spec.function
  args := args
  targets := binding.targets

/-- Makes the call: reports the start, expands the arguments, attempts until settled, and reports
the outcome. A panic ends it without a report. -/
def invoke (binding : Binding) (c : CallTask) : Program (Ending × CallTask) := do
  let now ← Program.now
  Program.emit (.started c.id c.spec.function)
  let args ← expandArgs Program.resolve c.spec.args
  let r ← attempt binding (request binding c args)
  let c := { c with attempts := r.attempts, startedAt := some now, reported := false }
  match r.result with
  | .ok settled => do pure (.returned, ← c.complete r.errors (.ok settled))
  | .failed e => do pure (.returned, ← c.complete r.errors (.error e))
  | .panicked reason => pure (.panicked reason, c)

/-- Reports the call as failed for a reason, unless it was reported since its last invocation
began. -/
def abandon (c : CallTask) (reason : String) : Program CallTask :=
  c.complete [] (.error (CallError.panicked reason))

end CallTask

end LedgerBench
