import LedgerBench.Call.Basic
/-!
Checks on the answer to a query.

A query counts as answered only once every handler of a chain has accepted the response. Handlers
look at it in order and the first that rejects it decides. The standard chain asks for at least one
endorsement, all of them with status 200 and one payload, and then has every signature verified.
-/

namespace LedgerBench

/-- What a handler says about a response. A handler that is not one of the library's may also
panic. -/
inductive Verdict where
  | accepted
  | rejected (error : CallError)
  | panicked (reason : String)
  deriving DecidableEq, Repr

/-- Says whether an endorsement's signature is genuine. -/
abbrev SignatureVerifier := Endorsement → Bool

structure Handler where
  name : String
  judge : QueryResponse → Verdict

namespace Handler

/-- The status of an endorsement in good order. -/
def statusOk : Int := 200

/-- The verdict that refuses a response with a message. -/
def refuse (message : String) : Verdict := .rejected { kind := .endorsement, message }

/-- Checks endorsements in order against the first one: the status, then the payload. -/
def judgeEndorsements (first : Endorsement) : List Endorsement → Verdict
  | [] => .accepted
  | e :: rest =>
    if e.status ≠ statusOk then
      refuse ("endorser " ++ e.endorser ++ " answered with status " ++ Text.intText e.status)
    else if e.payload ≠ first.payload then
      refuse ("payload from endorser " ++ e.endorser ++ " differs from endorser " ++ first.endorser)
    else judgeEndorsements first rest

/-- At least one endorsement, every one in good order, all with the same payload. -/
def endorsement : Handler where
  name := "endorsement-validation"
  judge response :=
    match response.endorsements with
    | [] => refuse "response carries no endorsements"
    | first :: rest => judgeEndorsements first (first :: rest)

/-- Every signature is genuine. -/
def signature (verify : SignatureVerifier) : Handler where
  name := "signature-validation"
  judge response :=
    match response.endorsements.find? fun e => !verify e with
    | some e => refuse ("invalid signature from endorser " ++ e.endorser)
    | none => .accepted

end Handler

/-- Handlers in the order in which they look at a response. -/
abbrev HandlerChain := List Handler

namespace HandlerChain

/-- Endorsements first, then signatures. -/
def standard (verify : SignatureVerifier) : HandlerChain :=
  [Handler.endorsement, Handler.signature verify]

/-- The verdict of the first handler that does not accept. -/
def judge (chain : HandlerChain) (response : QueryResponse) : Verdict :=
  match chain with
  | [] => .accepted
  | handler :: rest =>
    match handler.judge response with
    | .accepted => judge rest response
    | verdict => verdict

def names (chain : HandlerChain) : List String := chain.map Handler.name

end HandlerChain

end LedgerBench
