import LedgerBench.Call.Basic
import LedgerBench.Json.Decode
import LedgerBench.Progress
/-!
The JSON forms of the call types.

For each type there is a writer `toJson` and a reader `ofJson?`. An absent transaction identifier is
not written; everything else is always written, and the reader's defaults fill in what older texts
leave out.
-/

namespace LedgerBench

namespace CallSpec

def toJson (c : CallSpec) : Json :=
  Json.record [("Func", Json.text c.function), ("Args", .array (c.args.map Json.text))]

def ofJson? (v : Json) : Option CallSpec :=
  match Json.fields? ["Func", "Args"] false v with
  | some [function, args] => do
    let function ← Json.required? Json.asText? function
    let args ← Json.withDefault? [] (Json.asList? Json.asText?) args
    some { function, args }
  | _ => none

end CallSpec

namespace Target

def toJson (t : Target) : Json := Json.record [("name", Json.text t.name), ("url", Json.text t.url)]

def ofJson? (v : Json) : Option Target :=
  match Json.fields? ["name", "url"] false v with
  | some [name, url] => do
    let name ← Json.required? Json.asText? name
    let url ← Json.withDefault? "" Json.asText? url
    some { name, url }
  | _ => none

end Target

namespace CallMode

def text : CallMode → String
  | submit => "submit"
  | query => "query"

def ofText? (s : String) : Option CallMode :=
  if s = "submit" then some submit else if s = "query" then some query else none

def toJson (m : CallMode) : Json := Json.text m.text

def ofJson? (v : Json) : Option CallMode := (Json.plainChoice? v).bind ofText?

end CallMode

namespace ErrorKind

def ofText? (s : String) : Option ErrorKind :=
  if s = "transient" then some transient
  else if s = "persistent" then some persistent
  else if s = "transport" then some transport
  else if s = "endorsement" then some endorsement
  else none

def toJson (k : ErrorKind) : Json := Json.text k.text

def ofJson? (v : Json) : Option ErrorKind := (Json.plainChoice? v).bind ofText?

end ErrorKind

namespace CallError

def toJson (e : CallError) : Json :=
  Json.record ([("kind", e.kind.toJson), ("message", Json.text e.message)]
    ++ match e.transactionId with
      | some tx => [("transaction_id", Json.text tx)]
      | none => [])

def ofJson? (v : Json) : Option CallError :=
  match Json.fields? ["kind", "message", "transaction_id"] false v with
  | some [kind, message, transactionId] => do
    let kind ← Json.required? ErrorKind.ofJson? kind
    let message ← Json.required? Json.asText? message
    let transactionId ← Json.withDefault? none (Json.asOptional? Json.asText?) transactionId
    some { kind, message, transactionId }
  | _ => none

end CallError

namespace ValidationCode

/-- The bound of a code's number on either side of zero: it has 32 bits. -/
def numberBound : Nat := 2 ^ 31

/-- The code with a name; those kept by number have none. -/
def ofText? (s : String) : Option ValidationCode :=
  if s = "VALID" then some valid
  else if s = "BAD_PAYLOAD" then some badPayload
  else if s = "BAD_CREATOR_SIGNATURE" then some badCreatorSignature
  else if s = "BAD_PROPOSAL_TXID" then some badProposalTxid
  else if s = "DUPLICATE_TXID" then some duplicateTxid
  else if s = "ENDORSEMENT_POLICY_FAILURE" then some endorsementPolicyFailure
  else if s = "MVCC_READ_CONFLICT" then some mvccReadConflict
  else if s = "PHANTOM_READ_CONFLICT" then some phantomReadConflict
  else none

def toJson : ValidationCode → Json
  | other n => Json.record [("OTHER", Json.ofInt n)]
  | c => Json.text c.text

def ofJson? (v : Json) : Option ValidationCode :=
  match Json.choice? v with
  | some ("OTHER", some n) => (Json.asInt? numberBound n).map other
  | some (name, none) => ofText? name
  | some (name, some .null) => ofText? name
  | _ => none

end ValidationCode

namespace Identifier

def toJson {kind : NamedKind} (id : Identifier kind) : Json :=
  Json.record [("ulid", Json.text id.ulid.text)]

def ofJson? {kind : NamedKind} (v : Json) : Option (Identifier kind) :=
  match Json.fields? ["ulid"] false v with
  | some [ulid] => ((Json.required? Json.asText? ulid).bind Ulid.ofText?).map fun u => ⟨u⟩
  | _ => none

end Identifier

namespace Progress

def toJson (p : Progress) : Json :=
  Json.record [("expected", Json.ofNat p.expected), ("started", Json.ofNat p.started),
    ("succeeded", Json.ofNat p.succeeded), ("failed", Json.ofNat p.failed)]

def ofJson? (v : Json) : Option Progress :=
  match Json.fields? ["expected", "started", "succeeded", "failed"] false v with
  | some [expected, started, succeeded, failed] => do
    let expected ← Json.required? (Json.asNat? countBound) expected
    let started ← Json.required? (Json.asNat? countBound) started
    let succeeded ← Json.required? (Json.asNat? countBound) succeeded
    let failed ← Json.required? (Json.asNat? countBound) failed
    some { expected, started, succeeded, failed }
  | _ => none

end Progress

end LedgerBench
