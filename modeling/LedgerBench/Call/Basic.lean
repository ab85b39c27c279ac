import LedgerBench.Text.Blank
import LedgerBench.Text.Bytes
import LedgerBench.Ulid
/-!
Calls to a ledger: what is called, where, and what came back.

A call description holds templates; a request holds the texts they expanded to. A submitted call is
answered by a transaction with a validation code, a query by a payload with endorsements. A call
that fails leaves a classified error.
-/

namespace LedgerBench

/-- One remote call: a function name and the templates of its arguments, in order. -/
structure CallSpec where
  function : String
  args : List String := []
  deriving DecidableEq, Repr, Inhabited

structure Target where
  name : String
  url : String := ""
  deriving DecidableEq, Repr

/-- Whether a call changes the ledger or only reads from it. -/
inductive CallMode where
  | submit
  | query
  deriving DecidableEq, Repr, Inhabited

structure Request where
  task : TaskId
  function : String
  args : List String
  targets : List Target
  deriving DecidableEq, Repr

/-! ## Errors -/

/-- What kind of failure a call ended in: a code that clears up by itself, a code that does not, no
response at all, or a response that was refused. -/
inductive ErrorKind where
  | transient
  | persistent
  | transport
  | endorsement
  deriving DecidableEq, Repr

def ErrorKind.text : ErrorKind → String
  | .transient => "transient"
  | .persistent => "persistent"
  | .transport => "transport"
  | .endorsement => "endorsement"

/-- A classified failure of a call, with the transaction it belongs to where there is one. -/
structure CallError where
  kind : ErrorKind
  message : String
  transactionId : Option String := none
  deriving DecidableEq, Repr

/-- The line that shows the error. -/
def CallError.text (e : CallError) : String :=
  match e.transactionId with
  | some tx => e.kind.text ++ " error (tx " ++ tx ++ "): " ++ e.message
  | none => e.kind.text ++ " error: " ++ e.message

/-- The error of a task that panicked. -/
def CallError.panicked (reason : String) : CallError :=
  { kind := .persistent, message := "task panicked: " ++ reason }

inductive TransportError where
  | unavailable (target reason : String)
  | noResponse (reason : String)
  | rejected (status : Nat) (message : String)
  deriving DecidableEq, Repr

def TransportError.message : TransportError → String
  | .unavailable target reason => "target " ++ target ++ " unavailable: " ++ reason
  | .noResponse reason => "no response: " ++ reason
  | .rejected status message =>
    "request rejected with status " ++ Text.natText status ++ ": " ++ message

/-- The call's error when its request produced no response. -/
def TransportError.toCallError (e : TransportError) : CallError :=
  { kind := .transport, message := e.message }

/-! ## Answers -/

/-- The validation code of a committed transaction. Codes without a meaning here keep their
number. -/
inductive ValidationCode where
  | valid
  | badPayload
  | badCreatorSignature
  | badProposalTxid
  | duplicateTxid
  | endorsementPolicyFailure
  | mvccReadConflict
  | phantomReadConflict
  | other (number : Int)
  deriving DecidableEq, Repr

namespace ValidationCode

def ofNumber (n : Int) : ValidationCode :=
  if n = 0 then valid
  else if n = 2 then badPayload
  else if n = 4 then badCreatorSignature
  else if n = 8 then badProposalTxid
  else if n = 9 then duplicateTxid
  else if n = 10 then endorsementPolicyFailure
  else if n = 11 then mvccReadConflict
  else if n = 12 then phantomReadConflict
  else other n

def number : ValidationCode → Int
  | valid => 0
  | badPayload => 2
  | badCreatorSignature => 4
  | badProposalTxid => 8
  | duplicateTxid => 9
  | endorsementPolicyFailure => 10
  | mvccReadConflict => 11
  | phantomReadConflict => 12
  | other n => n

/-- Whether the transaction took effect. -/
def isValid (c : ValidationCode) : Bool := c = valid

/-- Whether sending the call again may help: a repeated identifier and the two read conflicts. -/
def isTransient : ValidationCode → Bool
  | duplicateTxid | mvccReadConflict | phantomReadConflict => true
  | _ => false

/-- The code's name, or its number. -/
def text : ValidationCode → String
  | valid => "VALID"
  | badPayload => "BAD_PAYLOAD"
  | badCreatorSignature => "BAD_CREATOR_SIGNATURE"
  | badProposalTxid => "BAD_PROPOSAL_TXID"
  | duplicateTxid => "DUPLICATE_TXID"
  | endorsementPolicyFailure => "ENDORSEMENT_POLICY_FAILURE"
  | mvccReadConflict => "MVCC_READ_CONFLICT"
  | phantomReadConflict => "PHANTOM_READ_CONFLICT"
  | other n => "CODE_" ++ Text.intText n

end ValidationCode

structure TxResponse where
  transactionId : String
  code : ValidationCode
  deriving DecidableEq, Repr

structure Endorsement where
  endorser : String
  status : Int
  payload : Bytes
  signature : Bytes
  deriving DecidableEq, Repr

structure QueryResponse where
  payload : Bytes
  endorsements : List Endorsement
  deriving DecidableEq, Repr

end LedgerBench
