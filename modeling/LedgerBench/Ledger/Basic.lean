import LedgerBench.Task.Program
/-!
Ledgers as state machines.

A ledger with states `σ` answers a request in two steps. As the request arrives, the ledger
settles how long it takes and what will serve it (`Arrival`). Once that time has passed, it is
served in the state that the ledger is in by then (`Service`); in between, other requests come
and go. An answer may also be a transport error or a panic. `Ledger.withFaults` makes any ledger
panic on chosen calls.
-/

namespace LedgerBench

/-- What becomes of a request that is served: its reply, the time until the reply is there, and
the ledger's next state. -/
structure Served (σ α : Type) where
  reply : Reply α
  took : Duration := Duration.zero
  next : σ

/-- How requests are served that are due, by a ledger with states `σ`. -/
structure Service (σ : Type) where
  submit : Request → σ → Served σ TxResponse
  query : Request → σ → Served σ QueryResponse

/-- What becomes of a request that arrives: the time until it is served, the ledger's state
meanwhile, and what serves it then. -/
structure Arrival (σ : Type) where
  took : Duration := Duration.zero
  next : σ
  service : Service σ

/-- A ledger with states `σ`. -/
structure Ledger (σ : Type) where
  arrive : CallMode → Request → σ → Arrival σ

/-- The ledger that serves every request as it arrives. -/
def Service.atOnce {σ : Type} (service : Service σ) : Ledger σ where
  arrive _ _ s := { next := s, service }

/-- What a ledger makes of a request while no other one is under way. -/
def Ledger.alone {σ : Type} (ledger : Ledger σ) : Service σ where
  submit request s :=
    let a := ledger.arrive .submit request s
    let served := a.service.submit request a.next
    { served with took := a.took + served.took }
  query request s :=
    let a := ledger.arrive .query request s
    let served := a.service.query request a.next
    { served with took := a.took + served.took }

/-- A panic of a ledger: what it says, and at which call of a function it begins. -/
structure Fault where
  function : String
  reason : String
  fromCall : Nat := 1
  deriving DecidableEq, Repr

/-- A ledger's state, and how often each function with a fault was called. -/
structure Faulty (σ : Type) where
  inner : σ
  counts : List (String × Nat) := []

/-- How often a function was called. -/
def Faulty.count {σ : Type} (s : Faulty σ) (function : String) : Nat :=
  (s.counts.lookup function).getD 0

/-- Counts one more call of a function. -/
def Faulty.countCall {σ : Type} (s : Faulty σ) (function : String) : Faulty σ :=
  let others := s.counts.filter fun entry => entry.1 != function
  { s with counts := (function, s.count function + 1) :: others }

/-- Serves a request by the ledger behind the faults. -/
def Faulty.serve {σ α : Type} (serve : σ → Served σ α) (s : Faulty σ) : Served (Faulty σ) α :=
  let served := serve s.inner
  { reply := served.reply, took := served.took, next := { s with inner := served.next } }

/-- A service behind faults. -/
def Service.behindFaults {σ : Type} (service : Service σ) : Service (Faulty σ) where
  submit request := Faulty.serve (service.submit request)
  query request := Faulty.serve (service.query request)

/-- What serves no request and panics. -/
def Service.panicking {σ : Type} (reason : String) : Service σ where
  submit _ s := { reply := .panicked reason, next := s }
  query _ s := { reply := .panicked reason, next := s }

/-- Passes a request on to the ledger behind the faults. -/
def Faulty.pass {σ : Type} (arrive : σ → Arrival σ) (s : Faulty σ) : Arrival (Faulty σ) :=
  let a := arrive s.inner
  { took := a.took, next := { s with inner := a.next }, service := a.service.behindFaults }

/-- Passes a request on, unless it is a call from which on its function panics. A request that
panics never reaches the ledger. -/
def Faulty.arrive {σ : Type} (faults : List Fault) (request : Request) (arrive : σ → Arrival σ)
    (s : Faulty σ) : Arrival (Faulty σ) :=
  match faults.find? fun fault => fault.function == request.function with
  | none => s.pass arrive
  | some fault =>
    let s := s.countCall request.function
    if fault.fromCall ≤ s.count request.function then
      { next := s, service := .panicking fault.reason }
    else s.pass arrive

/-- The ledger that panics as some faults say and is otherwise the given one. -/
def Ledger.withFaults {σ : Type} (ledger : Ledger σ) (faults : List Fault) :
    Ledger (Faulty σ) where
  arrive mode request := Faulty.arrive faults request (ledger.arrive mode request)

end LedgerBench
