import LedgerBench.Keyed
import LedgerBench.Ledger.Scripted
import Mathlib.Data.List.ReduceOption
/-!
What a scripted ledger hands out.

The queues of all functions stand in one state, but a queue is touched by scripts for its function
and calls of it alone. So each function has a history of its own, and that decides what its calls
are given. The calls here come one by one, each served before the next one arrives; `alone_ledger`
says that this is how the ledger serves a request while no other one is under way. What is proved:
  1. `queue_call`, `queue_perform_of_ne`: a call takes its answer from the queue of its function,
     whether or not the answer fits it, and leaves the others.
  2. `queue_run`: whatever was queued for a function has been handed out or still waits, in order.
  3. `given_eq_handOut`: the calls of a function are given what a queue hands out that stands alone.
  4. `handed_of_run`: so every call is given the first answer that is not handed out yet, and the
     fallback answers exactly where there is none.
-/

namespace LedgerBench

/-- What an answer is to a call. A code commits a submission, as the transaction with some number;
of the codes the valid one answers a query. A response answers a query and refuses a submission. -/
def ScriptedAnswer.replyTo (mode : CallMode) (request : Request) (number : Nat) :
    ScriptedAnswer → Reply TxResponse ⊕ Reply QueryResponse
  | .code c => match mode with
    | .submit => .inl (.answered { transactionId := "tx-" ++ Text.natText number, code := c })
    | .query => .inr (
        if c = .valid then .answered
          (ScriptedLedger.endorsed (Bytes.ofText request.function) ScriptedLedger.defaultEndorsers)
        else .failed (.rejected 500 ("query failed with " ++ c.text)))
  | .transport e => match mode with
    | .submit => .inl (.failed e)
    | .query => .inr (.failed e)
  | .query response => match mode with
    | .submit => .inl (.failed (.rejected 400 (request.function ++ " is scripted as a query")))
    | .query => .inr (.answered response)

namespace ScriptedLedger

/-! ## Operations -/

inductive Operation where
  | script (function : String) (answers : List ScriptedAnswer)
  | call (mode : CallMode) (request : Request)
  deriving DecidableEq, Repr

namespace Operation

/-- The function that is scripted or called. -/
def function : Operation → String
  | script function _ => function
  | call _ request => request.function

/-- The answers that are queued. -/
def answers : Operation → List ScriptedAnswer
  | script _ answers => answers
  | call _ _ => []

def request? : Operation → Option Request
  | script _ _ => none
  | call _ request => some request

end Operation

def perform (s : ScriptedLedger) : Operation → ScriptedLedger
  | .script function answers => s.script function answers
  | .call .submit request => (submit request s).next
  | .call .query request => (query request s).next

/-- The ledger after some operations, the first of them first. -/
def run (s : ScriptedLedger) (ops : List Operation) : ScriptedLedger := ops.foldl perform s

/-- A ledger without scripts. -/
def fresh (fallback : ScriptedAnswer) : ScriptedLedger := { fallback }

/-- What the ledger says to a call. -/
def reply (mode : CallMode) (request : Request) (s : ScriptedLedger) :
    Reply TxResponse ⊕ Reply QueryResponse :=
  match mode with
  | .submit => .inl (submit request s).reply
  | .query => .inr (query request s).reply

/-- A request that nothing else is under way beside is served with the answer that it takes. -/
theorem alone_ledger : ledger.alone = { submit, query } := by
  have hsubmit : ledger.alone.submit = submit := by
    funext request s
    simp only [Ledger.alone, ledger, arrive, service, submit]
    cases (s.take request).1 <;> rfl
  have hquery : ledger.alone.query = query := by
    funext request s
    simp only [Ledger.alone, ledger, arrive, service, query]
    cases (s.take request).1 with
    | code c =>
      simp only [queried]
      split <;> rfl
    | transport e => rfl
    | query response => rfl
  rw [← hsubmit, ← hquery]

/-- The operations on one function. -/
def about (f : String) (ops : List Operation) : List Operation :=
  ops.filter fun op => op.function == f

/-- All answers that are queued for a function, in order. -/
def queued (f : String) (ops : List Operation) : List ScriptedAnswer :=
  (about f ops).flatMap Operation.answers

/-- What the calls of a function are given while some operations are performed, in call order. It is
nothing where the fallback has to answer. -/
def given (f : String) (s : ScriptedLedger) : List Operation → List (Option ScriptedAnswer)
  | [] => []
  | .script g answers :: rest => given f (s.perform (.script g answers)) rest
  | .call mode request :: rest =>
    let later := given f (s.perform (.call mode request)) rest
    if request.function = f then (s.queue f).head? :: later else later

/-- The scripted answers among what the calls of a function are given. -/
def handed (f : String) (s : ScriptedLedger) (ops : List Operation) : List ScriptedAnswer :=
  (given f s ops).reduceOption

/-- What a queue that stands alone hands out. Neither the functions nor the kinds of the calls
matter to it. -/
def handOut (waiting : List ScriptedAnswer) : List Operation → List (Option ScriptedAnswer)
  | [] => []
  | .script _ answers :: rest => handOut (waiting ++ answers) rest
  | .call _ _ :: rest => waiting.head? :: handOut waiting.tail rest

variable (s : ScriptedLedger) (f : String)

theorem run_cons (op : Operation) (ops : List Operation) :
    run s (op :: ops) = run (s.perform op) ops :=
  rfl

theorem run_append (xs ys : List Operation) : run s (xs ++ ys) = run (run s xs) ys :=
  List.foldl_append

section

variable {f} {op : Operation}

theorem about_cons_of_eq (h : op.function = f) (ops : List Operation) :
    about f (op :: ops) = op :: about f ops :=
  List.filter_cons_of_pos (by simpa using h)

theorem about_cons_of_ne (h : op.function ≠ f) (ops : List Operation) :
    about f (op :: ops) = about f ops :=
  List.filter_cons_of_neg (by simpa using h)

theorem queued_cons_of_eq (h : op.function = f) (ops : List Operation) :
    queued f (op :: ops) = op.answers ++ queued f ops := by
  rw [queued, about_cons_of_eq h, List.flatMap_cons, queued]

theorem queued_cons_of_ne (h : op.function ≠ f) (ops : List Operation) :
    queued f (op :: ops) = queued f ops := by
  rw [queued, about_cons_of_ne h, queued]

theorem given_cons_of_ne (h : op.function ≠ f) (ops : List Operation) :
    given f s (op :: ops) = given f (s.perform op) ops := by
  cases op with
  | script g answers => rfl
  | call mode request => exact if_neg h

end

theorem given_call (mode : CallMode) (request : Request) (ops : List Operation) :
    given request.function s (.call mode request :: ops) =
      (s.queue request.function).head? :: given request.function
        (s.perform (.call mode request)) ops := if_pos rfl

/-! ## One operation -/

theorem queue_setQueue (g : String) (answers : List ScriptedAnswer) :
    (s.setQueue g answers).queue f = if f = g then answers else s.queue f := by
  simp only [queue, setQueue, lookup_put, beq_iff_eq]
  split
  · rfl
  · rfl

section

variable (mode : CallMode) (request : Request)

/-- A call is recorded, and takes the first answer in the queue of its function if there is one. -/
theorem take_cases :
    (s.queue request.function = [] ∧ s.take request =
        (s.fallback, { s with received := request :: s.received })) ∨
    ∃ answer rest, s.queue request.function = answer :: rest ∧
      s.take request =
        (answer, { s with received := request :: s.received }.setQueue request.function rest) := by
  simp only [take]
  split
  · rename_i hqueue
    exact .inl ⟨hqueue, rfl⟩
  · rename_i answer rest hqueue
    exact .inr ⟨answer, rest, hqueue, rfl⟩

theorem take_fst : (s.take request).1 = (s.queue request.function).head?.getD s.fallback := by
  rcases s.take_cases request with ⟨hqueue, htake⟩ | ⟨answer, rest, hqueue, htake⟩
  · rw [htake, hqueue]
    rfl
  · rw [htake, hqueue]
    rfl

theorem queue_take :
    (s.take request).2.queue f = if f = request.function then (s.queue f).tail else s.queue f := by
  have hreceived :
      ({ s with received := request :: s.received } : ScriptedLedger).queue f = s.queue f := rfl
  rcases s.take_cases request with ⟨hqueue, htake⟩ | ⟨answer, rest, hqueue, htake⟩
  · rw [htake, hreceived]
    split
    · rename_i hf
      rw [hf, hqueue, List.tail_nil]
    · rfl
  · rw [htake, queue_setQueue, hreceived]
    split
    · rename_i hf
      rw [hf, hqueue, List.tail_cons]
    · rfl

/-- Taking an answer changes nothing else. -/
theorem take_frame :
    (s.take request).2.received = request :: s.received ∧ (s.take request).2.fallback = s.fallback ∧
    (s.take request).2.committed = s.committed := by
  rcases s.take_cases request with ⟨-, htake⟩ | ⟨answer, rest, -, htake⟩
  · rw [htake]
    exact ⟨rfl, rfl, rfl⟩
  · rw [htake]
    exact ⟨rfl, rfl, rfl⟩

/-- Whatever the answer is to a call, the ledger goes on from where it was taken, and at most counts
one transaction more. -/
theorem exists_perform_call :
    ∃ committed, s.perform (.call mode request) = { (s.take request).2 with committed } := by
  cases mode with
  | submit =>
    simp only [perform, submit, submitted]
    split
    · exact ⟨_, rfl⟩
    · exact ⟨_, rfl⟩
    · exact ⟨_, rfl⟩
  | query =>
    simp only [perform, query, queried]
    split
    · exact ⟨_, rfl⟩
    · split
      · exact ⟨_, rfl⟩
      · exact ⟨_, rfl⟩
    · exact ⟨_, rfl⟩

theorem queue_perform_call : (s.perform (.call mode request)).queue f = if f =
    request.function then (s.queue f).tail else s.queue f := by
  obtain ⟨committed, hperform⟩ := s.exists_perform_call mode request
  rw [hperform, ← queue_take]
  rfl

/-- What waits for a call is its answer and what waits after it, whatever kind of call it is. -/
theorem queue_call : s.queue request.function =
    (s.queue request.function).head?.toList ++ (s.perform (.call mode request)).queue
      request.function := by
  rw [queue_perform_call, if_pos rfl]
  cases s.queue request.function with
  | nil => rfl
  | cons answer rest => rfl

/-- A call is answered by the first scripted answer that waits, or else by the fallback. -/
theorem reply_eq : s.reply mode request = ((s.queue request.function).head?.getD s.fallback).replyTo
    mode request (s.committed + 1) := by
  obtain ⟨-, -, hcommitted⟩ := s.take_frame request
  rw [← take_fst, ← hcommitted]
  cases mode with
  | submit =>
    simp only [reply, submit]
    cases (s.take request).1 with
    | code code => rfl
    | transport e => rfl
    | query response => rfl
  | query =>
    simp only [reply, query]
    cases (s.take request).1 with
    | code code =>
      by_cases hvalid : code = .valid
      · simp [queried, ScriptedAnswer.replyTo, ValidationCode.isValid, hvalid]
      · simp [queried, ScriptedAnswer.replyTo, ValidationCode.isValid, hvalid]
    | transport e => rfl
    | query response => rfl

end

theorem queue_perform_script (g : String) (answers : List ScriptedAnswer) :
    (s.perform (.script g answers)).queue f = if f = g then s.queue g ++ answers else s.queue f :=
  queue_setQueue s f g _

theorem queue_perform_of_ne {op : Operation} (h : op.function ≠ f) :
    (s.perform op).queue f = s.queue f := by
  cases op with
  | script g answers => exact (queue_perform_script s f g answers).trans (if_neg (Ne.symm h))
  | call mode request => exact (queue_perform_call s f mode request).trans (if_neg (Ne.symm h))

/-- Every request is recorded, and the fallback stays. -/
theorem perform_frame (op : Operation) :
    (s.perform op).received = op.request?.toList ++ s.received ∧
      (s.perform op).fallback = s.fallback := by
  cases op with
  | script g answers => exact ⟨rfl, rfl⟩
  | call mode request =>
    obtain ⟨committed, hperform⟩ := s.exists_perform_call mode request
    obtain ⟨hreceived, hfallback, -⟩ := s.take_frame request
    rw [hperform]
    exact ⟨hreceived, hfallback⟩

/-! ## Runs -/

theorem calls_run (ops : List Operation) :
    (run s ops).calls = s.calls ++ ops.filterMap Operation.request? := by
  induction ops generalizing s with
  | nil => simp [run]
  | cons op rest ih =>
    have hcalls : (s.perform op).calls = s.calls ++ op.request?.toList := by
      rw [calls, (s.perform_frame op).1, List.reverse_append, calls]
      cases op.request? <;> rfl
    rw [run_cons, ih, hcalls, List.append_assoc, List.filterMap_cons]
    cases op.request? <;> rfl

theorem fallback_run (ops : List Operation) : (run s ops).fallback = s.fallback := by
  induction ops generalizing s with
  | nil => rfl
  | cons op rest ih => rw [run_cons, ih, (s.perform_frame op).2]

theorem given_append (xs ys : List Operation) :
    given f s (xs ++ ys) = given f s xs ++ given f (run s xs) ys := by
  induction xs generalizing s with
  | nil => rfl
  | cons op rest ih =>
    cases op with
    | script g answers => exact ih (s.perform (.script g answers))
    | call mode request =>
      rw [List.cons_append, given, given, ih, run_cons]
      split
      · exact (List.cons_append ..).symm
      · rfl

/-- What waited and what was queued since has been handed out or still waits, in order. -/
theorem queue_run (ops : List Operation) :
    s.queue f ++ queued f ops = handed f s ops ++ (run s ops).queue f := by
  unfold handed
  induction ops generalizing s with
  | nil => simp [queued, about, given, run]
  | cons op rest ih =>
    rw [run_cons]
    by_cases hf : op.function = f
    · rw [queued_cons_of_eq hf]
      cases op with
      | script g answers =>
        obtain rfl : g = f := hf
        rw [given, ← ih, queue_perform_script, if_pos rfl, List.append_assoc, Operation.answers]
      | call mode request =>
        obtain rfl : request.function = f := hf
        rw [Operation.answers, List.nil_append, given_call]
        calc s.queue request.function ++ queued request.function rest
          _ = (s.queue request.function).head?.toList
              ++ ((s.perform (.call mode request)).queue request.function
                ++ queued request.function rest) := by
            rw [← List.append_assoc, ← queue_call]
          _ = ((s.queue request.function).head?
                :: given request.function (s.perform (.call mode request)) rest).reduceOption
              ++ (run (s.perform (.call mode request)) rest).queue request.function := by
            rw [ih, ← List.append_assoc, ← List.reduceOption_singleton, ← List.reduceOption_append,
              List.singleton_append]
    · -- Nothing is queued, given or taken here.
      rw [queued_cons_of_ne hf, given_cons_of_ne s hf, ← ih, queue_perform_of_ne s f hf]

/-- What the calls of a function are given is decided by the operations on it alone, and not by the
kind of its calls. -/
theorem given_eq_handOut (ops : List Operation) :
    given f s ops = handOut (s.queue f) (about f ops) := by
  induction ops generalizing s with
  | nil => rfl
  | cons op rest ih =>
    by_cases hf : op.function = f
    · rw [about_cons_of_eq hf]
      cases op with
      | script g answers =>
        obtain rfl : g = f := hf
        rw [given, handOut, ih, queue_perform_script, if_pos rfl]
      | call mode request =>
        obtain rfl : request.function = f := hf
        rw [given_call, handOut, ih, queue_perform_call, if_pos rfl]
    · rw [about_cons_of_ne hf, given_cons_of_ne s hf, ih, queue_perform_of_ne s f hf]

/-- What a call is given after some operations on a ledger without scripts. -/
structure IsGiven (fallback : ScriptedAnswer) (before : List Operation) (mode : CallMode)
    (request : Request) (answer : Option ScriptedAnswer) : Prop where
  /-- Nothing, exactly where all that was queued for its function has been handed out. -/
  none_iff : answer = none ↔ handed request.function (fresh fallback) before =
    queued request.function before
  /-- And a scripted answer exactly where it is the next one in what was queued. -/
  some_iff : ∀ scripted, answer = some scripted ↔
    handed request.function (fresh fallback) before ++ [scripted] <+: queued request.function before
  /-- It decides what is said to the call, and where there is none the fallback does. -/
  reply : (run (fresh fallback) before).reply mode request =
    (answer.getD fallback).replyTo mode request ((run (fresh fallback) before).committed + 1)
  /-- It is consumed, whatever is said. -/
  consumed : (run (fresh fallback) before).queue request.function =
    answer.toList ++ (run (fresh fallback) (before ++ [.call mode request])).queue request.function

theorem queued_fresh (fallback : ScriptedAnswer) (ops : List Operation) :
    queued f ops = handed f (fresh fallback) ops ++ (run (fresh fallback) ops).queue f :=
  queue_run (fresh fallback) f ops

theorem isGiven_head (fallback : ScriptedAnswer) (before : List Operation) (mode : CallMode)
    (request : Request) :
    IsGiven fallback before mode request
      ((run (fresh fallback) before).queue request.function).head? where
  none_iff := by
    rw [queued_fresh request.function fallback before, List.head?_eq_none_iff]
    constructor
    · intro hempty
      rw [hempty, List.append_nil]
    · exact List.self_eq_append_right.mp
  some_iff := by
    intro scripted
    rw [queued_fresh request.function fallback before, List.prefix_append_right_inj]
    cases (run (fresh fallback) before).queue request.function with
    | nil => simp
    | cons first rest => simp [eq_comm]
  reply := by
    rw [reply_eq, fallback_run]
    rfl
  consumed := by
    rw [run_append]
    exact queue_call _ mode request

/-- What a ledger without scripts hands out, whatever operations are performed on it. It keeps all
requests in the order in which they arrived. The scripted answers that are handed out to the calls
of a function, in call order, begin the answers queued for it; they depend on neither the operations
on other functions nor the kinds of the calls. Each call is given the first answer that is not
handed out yet, which is consumed, and the fallback answers where there is none. -/
theorem handed_of_run (fallback : ScriptedAnswer) :
    (∀ ops, (run (fresh fallback) ops).calls = ops.filterMap Operation.request?) ∧
    (∀ f ops, handed f (fresh fallback) ops <+: queued f ops ∧
      given f (fresh fallback) ops = given f (fresh fallback) (about f ops) ∧
        given f (fresh fallback) ops = handOut [] (about f ops)) ∧
    ∀ before mode request after, ∃ answer, IsGiven fallback before mode request answer ∧
      given request.function (fresh fallback) (before ++ .call mode request :: after) =
        given request.function (fresh fallback) before ++ answer ::
          given request.function (run (fresh fallback) (before ++ [.call mode request])) after := by
  refine ⟨fun ops => calls_run (fresh fallback) ops, fun f ops =>
    ⟨?_, ?_, given_eq_handOut (fresh fallback) f ops⟩,
    fun before mode request after => ⟨_, isGiven_head fallback before mode request, ?_⟩⟩
  · rw [queued_fresh f fallback ops]
    exact List.prefix_append _ _
  · have habout : about f (about f ops) = about f ops := by
      rw [about, about, List.filter_filter]
      simp only [Bool.and_self]
    rw [given_eq_handOut, given_eq_handOut, habout]
  · rw [given_append, given_call, run_append]
    rfl

/-- A queue that runs out and is filled again, beside another one. The submission takes the
response, which it cannot use. -/
example :
    let get : Request := { task := ⟨Ulid.ofNat 1⟩, function := "get", args := [], targets := [] }
    let response : QueryResponse := ⟨[0x76], []⟩
    given "get" (fresh (.code .valid)) [.script "get" [.query response],
      .script "put" [.code .mvccReadConflict], .call .submit get, .call .query get,
      .script "get" [.code .duplicateTxid], .call .query get] =
        [some (.query response), none, some (.code .duplicateTxid)] := by
  decide

end ScriptedLedger

end LedgerBench
