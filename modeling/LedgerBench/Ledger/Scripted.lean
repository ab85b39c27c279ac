import LedgerBench.Ledger.Basic
import LedgerBench.Call.Handler
/-!
A ledger that answers from scripts.

Every function has a queue of answers that are handed out in order; once a queue is empty the
fallback answers. An answer is consumed whether or not it fits the request. Every request is
recorded, and committed transactions are numbered from one.
-/

namespace LedgerBench

inductive ScriptedAnswer where
  /-- Commits with a code. To a query, the valid code is an endorsed response and any other a
  rejection. -/
  | code (code : ValidationCode)
  | transport (error : TransportError)
  | query (response : QueryResponse)
  deriving DecidableEq, Repr

/-- The scripts that are left, the requests received so far, and the number of committed
transactions. -/
structure ScriptedLedger where
  scripts : List (String × List ScriptedAnswer) := []
  fallback : ScriptedAnswer := .code .valid
  /-- The requests received, the latest first. -/
  received : List Request := []
  committed : Nat := 0

namespace ScriptedLedger

def queue (s : ScriptedLedger) (function : String) : List ScriptedAnswer :=
  (s.scripts.lookup function).getD []

def setQueue (s : ScriptedLedger) (function : String) (answers : List ScriptedAnswer) :
    ScriptedLedger :=
  { s with scripts := (function, answers) :: s.scripts.filter fun entry => entry.1 != function }

/-- Queues answers for a function behind those already there. -/
def script (s : ScriptedLedger) (function : String) (answers : List ScriptedAnswer) :
    ScriptedLedger :=
  s.setQueue function (s.queue function ++ answers)

def calls (s : ScriptedLedger) : List Request := s.received.reverse

def callCount (s : ScriptedLedger) (function : String) : Nat :=
  s.received.countP fun request => request.function == function

/-- Records a request and hands out its answer. -/
def take (s : ScriptedLedger) (request : Request) : ScriptedAnswer × ScriptedLedger :=
  let s := { s with received := request :: s.received }
  match s.queue request.function with
  | [] => (s.fallback, s)
  | answer :: rest => (answer, s.setQueue request.function rest)

/-- A response in which every endorser answers in good order with the payload and a signature. -/
def endorsed (payload : Bytes) (endorsers : List String) : QueryResponse where
  payload := payload
  endorsements := endorsers.map fun name => {
    endorser := name, status := Handler.statusOk, payload
    signature := Bytes.ofText ("sig-" ++ name) }

/-- The peers that endorse a response by default. -/
def defaultEndorsers : List String := ["peer0", "peer1"]

/-- What an answer makes of a submission. A commit takes the next number. -/
def submitted (request : Request) (answer : ScriptedAnswer) (s : ScriptedLedger) :
    Served ScriptedLedger TxResponse :=
  match answer with
  | .code code =>
    let number := s.committed + 1
    { reply := .answered { transactionId := "tx-" ++ Text.natText number, code }
      next := { s with committed := number } }
  | .transport e => { reply := .failed e, next := s }
  | .query _ =>
    { reply := .failed (.rejected 400 (request.function ++ " is scripted as a query")), next := s }

/-- What an answer makes of a query. -/
def queried (request : Request) (answer : ScriptedAnswer) (s : ScriptedLedger) :
    Served ScriptedLedger QueryResponse :=
  match answer with
  | .query response => { reply := .answered response, next := s }
  | .code code =>
    if code.isValid then
      { reply := .answered (endorsed (Bytes.ofText request.function) defaultEndorsers), next := s }
    else { reply := .failed (.rejected 500 ("query failed with " ++ code.text)), next := s }
  | .transport e => { reply := .failed e, next := s }

def submit (request : Request) (s : ScriptedLedger) : Served ScriptedLedger TxResponse :=
  let (answer, s) := s.take request
  submitted request answer s

def query (request : Request) (s : ScriptedLedger) : Served ScriptedLedger QueryResponse :=
  let (answer, s) := s.take request
  queried request answer s

/-- What serves the request that an answer was taken for. -/
def service (answer : ScriptedAnswer) : Service ScriptedLedger where
  submit request := submitted request answer
  query request := queried request answer

/-- The answer to a request is taken as it arrives. No request takes any time. -/
def arrive (request : Request) (s : ScriptedLedger) : Arrival ScriptedLedger :=
  let (answer, next) := s.take request
  { next, service := service answer }

def ledger : Ledger ScriptedLedger where
  arrive _ := arrive

/-- Any signature at all is accepted. -/
def verify : SignatureVerifier := fun e => e.signature ≠ []

end ScriptedLedger

end LedgerBench
