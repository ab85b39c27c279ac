import LedgerBench.Ledger.Basic
import LedgerBench.Call.Handler
import LedgerBench.Template.Resolve
/-!
A ledger made up on the spot.

Every call takes a random time within a range, and a random number decides whether it is lost,
commits with a read conflict, with a policy failure, or validly. Signatures are a checksum of the
endorser's name and the payload, so the ledger can verify what it signed; in the answer to a query
that does not commit validly the last endorser disagrees.
-/

namespace LedgerBench

/-- How a simulated ledger behaves: the latencies in milliseconds from the first up to but not
including the second, the shares of calls that fail in each way, and the peers that endorse. -/
structure SimulationProfile where
  latencyFrom : Nat := 5
  latencyTo : Nat := 50
  /-- The share of calls committed with a code worth another try. -/
  transientRate : Binary64 := Binary64.ofRatio false 5 100
  /-- The share of calls committed with a code that is final. -/
  persistentRate : Binary64 := Binary64.ofRatio false 1 100
  /-- The share of calls that get no response. -/
  transportRate : Binary64 := Binary64.ofRatio false 1 100
  endorsers : List String := ["peer0", "peer1"]
  deriving DecidableEq, Repr

/-- What a random number makes of a call. -/
inductive SimulatedFate where
  | lost
  | committed (code : ValidationCode)
  deriving DecidableEq, Repr

/-- The number of committed transactions and the random numbers to come. -/
structure SimulatedLedger where
  committed : Nat := 0
  draws : Draws

namespace SimulatedLedger

/-- The number in `[0, 1)` that a random number stands for: its lowest 53 bits as a fraction. -/
def roll (random : Nat) : Binary64 := Binary64.ofRatio false (random % 2 ^ 53) (2 ^ 53)

/-- The fate of a call with a roll. The rates are added up in order, so their sum is compared as it
is rounded. -/
def fate (p : SimulationProfile) (roll : Binary64) : SimulatedFate :=
  let transient := p.transportRate.add p.transientRate
  if roll.lt p.transportRate then .lost
  else if roll.lt transient then .committed .mvccReadConflict
  else if roll.lt (transient.add p.persistentRate) then .committed .endorsementPolicyFailure
  else .committed .valid

/-- The latency that a random number stands for. An empty range is its start. -/
def latency (p : SimulationProfile) (random : Nat) : Duration :=
  Duration.ofMillis
    (if p.latencyTo ≤ p.latencyFrom then p.latencyFrom
      else p.latencyFrom + random % (p.latencyTo - p.latencyFrom))

/-- Draws how long a call takes, which is a wait for its latency, and its fate. -/
def draw (p : SimulationProfile) (s : SimulatedLedger) :
    Duration × SimulatedFate × SimulatedLedger :=
  let (first, draws) := s.draws.next
  let (second, draws) := draws.next
  ((latency p first).waited, fate p (roll second), { s with draws })

/-- The signature of an endorser on a payload: its name and the checksum of name and payload. -/
def sign (endorser : String) (payload : Bytes) : Bytes :=
  Bytes.ofText (endorser ++ ":"
    ++ Text.hexPadded 16 (Bytes.fnv1a (Bytes.ofText endorser ++ payload)).toNat)

/-- Whether an endorsement carries the signature of its endorser on its payload. -/
def verify : SignatureVerifier := fun e => e.signature = sign e.endorser e.payload

def timeout (request : Request) : TransportError :=
  .noResponse ("simulated timeout for " ++ request.function)

/-- The payload of a query: the call as it would be written. -/
def payload (request : Request) : Bytes :=
  Bytes.ofText (request.function ++ "(" ++ ",".intercalate request.args ++ ")")

/-- The endorsement of a payload by a peer. -/
def endorse (payload : Bytes) (endorser : String) : Endorsement where
  endorser := endorser
  status := Handler.statusOk
  payload := payload
  signature := sign endorser payload

/-- The status of an endorser that disagrees. -/
def statusDisagrees : Int := 500

/-- The endorsements with the last one disagreeing. -/
def lastDisagrees : List Endorsement → List Endorsement
  | [] => []
  | [e] => [{ e with status := statusDisagrees }]
  | e :: rest => e :: lastDisagrees rest

/-- The response to a query that commits with a code. -/
def response (p : SimulationProfile) (request : Request) (code : ValidationCode) : QueryResponse :=
  let endorsements := p.endorsers.map (endorse (payload request))
  { payload := payload request
    endorsements := if code.isValid then endorsements else lastDisagrees endorsements }

/-- Serves a submission with a fate. A commit takes the next number only now. -/
def submit (request : Request) (fate : SimulatedFate) (s : SimulatedLedger) :
    Served SimulatedLedger TxResponse :=
  match fate with
  | .lost => { reply := .failed (timeout request), next := s }
  | .committed code =>
    let number := s.committed + 1
    { reply := .answered { transactionId := "sim-" ++ Text.zeroPadded 8 number, code }
      next := { s with committed := number } }

/-- Serves a query with a fate. -/
def query (p : SimulationProfile) (request : Request) (fate : SimulatedFate)
    (s : SimulatedLedger) : Served SimulatedLedger QueryResponse :=
  match fate with
  | .lost => { reply := .failed (timeout request), next := s }
  | .committed code => { reply := .answered (response p request code), next := s }

/-- What serves the requests with a fate. -/
def service (p : SimulationProfile) (fate : SimulatedFate) : Service SimulatedLedger where
  submit request := submit request fate
  query request := query p request fate

/-- The latency and the fate of a request are drawn as it arrives. -/
def arrive (p : SimulationProfile) (s : SimulatedLedger) : Arrival SimulatedLedger :=
  let (took, fate, next) := s.draw p
  { took, next, service := service p fate }

def ledger (p : SimulationProfile) : Ledger SimulatedLedger where
  arrive _ _ := arrive p

theorem arrive_ledger (p : SimulationProfile) (mode : CallMode) (request : Request)
    (s : SimulatedLedger) :
    (ledger p).arrive mode request s =
      { took := (s.draw p).1, next := (s.draw p).2.2, service := service p (s.draw p).2.1 } := by
  show arrive p s = _
  unfold arrive
  generalize s.draw p = drawn
  rfl

end SimulatedLedger

end LedgerBench
