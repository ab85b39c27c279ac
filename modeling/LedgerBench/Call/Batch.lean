import LedgerBench.Call.Wire
import LedgerBench.Json.Reader
/-!
Batches of calls.

A batch is a JSON array of call descriptions. It is taken as a whole or not at all: it must hold at
least one call, and every call must name its function.
-/

namespace LedgerBench

inductive BatchError where
  | invalidJson
  | noCalls
  | emptyFunction (index : Nat)
  deriving DecidableEq, Repr

/-- The wording of the error, after the words that say that the batch is malformed. -/
def BatchError.message : BatchError → String
  | .invalidJson => "malformed batch description: invalid batch JSON"
  | .noCalls => "malformed batch description: batch contains no calls"
  | .emptyFunction index =>
    "malformed batch description: entry " ++ Text.natText index ++ " has an empty function name"

namespace CallSpec

def isUnnamed (c : CallSpec) : Bool := Text.allBlank c.function.toList

/-- The calls, if there is at least one and each is named. -/
def checkBatch (calls : List CallSpec) : Except BatchError (List CallSpec) :=
  if calls = [] then .error .noCalls
  else
    match calls.findIdx? isUnnamed with
    | some index => .error (.emptyFunction index)
    | none => .ok calls

/-- The calls that a batch describes. -/
def readBatch (s : String) : Except BatchError (List CallSpec) :=
  match (Json.read? s.toList).bind (Json.asList? ofJson?) with
  | none => .error .invalidJson
  | some calls => checkBatch calls

def batchJson (calls : List CallSpec) : Json := .array (calls.map toJson)

end CallSpec

end LedgerBench
