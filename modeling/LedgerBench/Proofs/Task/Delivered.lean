import LedgerBench.Proofs.Task.Endorsed
import LedgerBench.Proofs.Task.Heard
/-!
Queries and their replies.

A query is repeated until it is delivered, and then it is up to the handlers. What is proved:
  1. `CallTask.query_eq_queryNoting`: a query takes one step to have its response judged. What is
     judged can be noted in that step, and without the notes it is the query again.
  2. `CallTask.run_queryNoting`: the notes of a query are the response that settled its delivery,
     and nothing where there is none.
  3. `CallTask.delivered_of_hears`: an invocation of a call in query mode sends as many requests as
     the law of retries asks for, judges the response to the last of them, and reports accordingly.
-/

namespace LedgerBench

open Program

namespace CallTask

/-! ## Judging a response -/

/-- A query that notes every response when it has the handlers judge it. -/
def queryNoting (policy : RetryPolicy) (handlers : HandlerChain) (request : Request) :
    StateT (List QueryResponse) Program (Retried Settled) :=
  queryIn policy (fun delay => StateT.lift (Program.sleep delay))
    (StateT.lift (queryAttempt request)) fun response => do
    modify (· ++ [response])
    pure (handlers.judge response)

/-- Programs as programs with notes. -/
def lifting : Carrying Program (StateT (List QueryResponse) Program) where
  apply := StateT.lift
  apply_pure _ := rfl
  apply_bind x f := by
    funext notes
    show (x >>= f) >>= (fun b => pure (b, notes)) = (x >>= fun a => pure (a, notes)) >>= fun a =>
      f a.1 >>= fun b => pure (b, a.2)
    simp only [LawfulMonad.bind_assoc, LawfulMonad.pure_bind]

/-- The notes of a query are the response that settled its delivery, if there is one. -/
theorem run_queryNoting (policy : RetryPolicy) (handlers : HandlerChain) (request : Request) :
    (queryNoting policy handlers request).run [] =
      retry policy Program.sleep (queryAttempt request) >>= fun r =>
        pure (r.andThen (judged handlers), r.result.value?.toList) := by
  have hloop : retry policy (fun delay => StateT.lift (Program.sleep delay))
      (StateT.lift (queryAttempt request)) =
      lifting.apply (retry policy Program.sleep (queryAttempt request)) :=
        (lifting.apply_retry policy Program.sleep (queryAttempt request)).symm
  unfold queryNoting queryIn
  rw [hloop, StateT.run_bind]
  show (retry policy Program.sleep (queryAttempt request) >>= fun r => pure (r, [])) >>= _ = _
  rw [LawfulMonad.bind_assoc]
  refine bind_congr fun r => ?_
  obtain ⟨result, errors⟩ := r
  cases result <;> rfl

/-- Without its notes it is the query. -/
theorem query_eq_queryNoting (policy : RetryPolicy) (handlers : HandlerChain) (request : Request) :
    query policy handlers request = Prod.fst <$> (queryNoting policy handlers request).run [] := by
  rw [run_queryNoting, query_eq, map_eq_pure_bind, LawfulMonad.bind_assoc]
  exact bind_congr fun r => rfl

end CallTask

/-! ## Replies to queries -/

/-- What a call reports that queried: whatever the handlers made of the response, or that there was
none. -/
inductive Reply.Concludes (handlers : HandlerChain) :
    Reply QueryResponse → Option CallError → Option Bytes → Prop where
  | accepted {response : QueryResponse} (h : handlers.judge response = .accepted) :
    Concludes handlers (.answered response) none (some response.payload)
  | rejected {response : QueryResponse} {e : CallError}
    (h : handlers.judge response = .rejected e) :
      Concludes handlers (.answered response) (some e) none
  | lost {e : TransportError} : Concludes handlers (.failed e) (some e.toCallError) none

theorem Reply.Concludes.of_rejected {handlers : HandlerChain} {response : QueryResponse}
    {e : CallError} {error : Option CallError} {payload : Option Bytes}
    (hrejected : handlers.judge response = .rejected e)
    (h : (Reply.answered response).Concludes handlers error payload) :
    error = some e ∧ payload = none := by
  cases h with
  | accepted haccepted => cases hrejected.symm.trans haccepted
  | rejected hrejected' =>
    obtain rfl := Verdict.rejected.inj (hrejected.symm.trans hrejected')
    exact ⟨rfl, rfl⟩

theorem Reply.failed_of_delivered {reply : Reply QueryResponse} {e : CallError}
    (h : reply.delivered = .failed e) :
    ∃ cause, reply = .failed cause ∧ e = cause.toCallError := by
  cases reply with
  | answered response => cases h
  | failed cause => exact ⟨cause, rfl, (Attempt.failed.inj h).symm⟩
  | panicked reason => cases h

/-- The response, where there is one. -/
def Reply.response? : Reply QueryResponse → Option QueryResponse
  | .answered response => some response
  | .failed _ | .panicked _ => none

theorem Reply.concludes_of_judged {handlers : HandlerChain} {reply : Reply QueryResponse}
    (h : ∀ reason, reply.delivered.andThen (CallTask.judged handlers) ≠ .panicked reason) :
    reply.Concludes handlers (reply.delivered.andThen (CallTask.judged handlers)).error?
      ((reply.delivered.andThen (CallTask.judged handlers)).value?.bind Settled.payload) := by
  cases reply with
  | answered response =>
    simp only [delivered, Attempt.andThen, CallTask.judged] at h ⊢
    cases hjudge : handlers.judge response with
    | accepted => exact .accepted hjudge
    | rejected e => exact .rejected hjudge
    | panicked reason => exact absurd rfl (hjudge ▸ h reason)
  | failed e => exact .lost
  | panicked reason => exact absurd rfl (h reason)

/-! ## Calls in query mode -/

namespace CallTask

variable {binding : Binding} {replies : Nat → Reply QueryResponse} {delays : Nat → Duration}
  {errors : Nat → CallError} {n : Nat} {result : Attempt QueryResponse}

/-- A query commits no transaction. -/
theorem transactionId_of_judged (handlers : HandlerChain) (a : Attempt QueryResponse) :
    (a.andThen (judged handlers)).value?.bind Settled.transactionId = none := by
  cases a with
  | ok response =>
    simp only [Attempt.andThen, judged]
    cases handlers.judge response <;> rfl
  | failed e => rfl
  | panicked reason => rfl

/-- A query panics only with its handlers, where the ledger does not. -/
theorem panicked_of_judged {handlers : HandlerChain} {reply : Reply QueryResponse}
    (hreply : ∀ reason, reply ≠ .panicked reason) {reason : String}
    (h : reply.delivered.andThen (judged handlers) = .panicked reason) :
    ∃ response, reply = .answered response ∧ handlers.judge response = .panicked reason := by
  cases reply with
  | answered response =>
    refine ⟨response, rfl, ?_⟩
    simp only [Reply.delivered, Attempt.andThen, judged] at h
    cases hjudge : handlers.judge response with
    | accepted => simp [settledAs, hjudge] at h
    | rejected e => simp [settledAs, hjudge] at h
    | panicked said => simpa [settledAs, hjudge] using h
  | failed e => cases h
  | panicked said => exact absurd rfl (hreply said)

/-- What the attempts of a call in query mode come to. -/
theorem runs_attempt_of_query (hmode : binding.mode = .query)
    (c : binding.policy.Course (fun k => (replies k).delivered) delays errors n result)
    (request : Request) :
    (hearing fun k => .inr (replies k)).runs (attempt binding request) 0
      ⟨result.andThen (judged binding.handlers), (List.range' 1 (n - 1)).map errors⟩ n := by
  unfold attempt
  rw [hmode]
  refine (hearing _).runs_bind (Hearing.runs_retry c fun i =>
    Hearing.runs_queryAttempt replies request i) ?_
  cases result <;> exact (hearing _).runs_pure _ _

/-- The handlers judge what the last query was answered with, once, and nothing where it was not
answered. -/
theorem noted_of_hears
    (c : binding.policy.Course (fun k => (replies k).delivered) delays errors n
      (replies n).delivered) {request : Request} {xs : List Exchange} {r : Retried Settled}
    {noted : List QueryResponse}
    (h : Path ((queryNoting binding.policy binding.handlers request).run []) xs (r, noted))
    (hhears : Hears (fun k => .inr (replies k)) xs) :
    noted = (replies n).response?.toList := by
  rw [run_queryNoting] at h
  obtain ⟨s, hloop, hpair⟩ := path_bind_pure_iff.mp h
  obtain ⟨-, rfl⟩ := Prod.mk.inj hpair
  have hruns := Hearing.runs_retry c fun i => Hearing.runs_queryAttempt replies request i
  obtain ⟨rfl, -⟩ :=
    Hearing.eq_of_hears ((alike_queryAttempt request request).retryFrom' _ [] _) hruns hloop hhears
  show (replies n).delivered.value?.toList = _
  cases replies n <;> rfl

/-- An invocation in query mode. Only queries that were not delivered are repeated, as the law of
retries says. The handlers judge the response to the last one, if there is a response, and nothing
else; the call reports what they make of it, or that there was none. -/
theorem delivered_of_hears (hmode : binding.mode = .query)
    (hdelays : ∀ k, 1 ≤ k → k < binding.policy.maxAttempts →
      ∃ delay, binding.policy.nextDelay? k = .ok delay) (c : CallTask)
    (replies : Nat → Reply QueryResponse) (hreplies : ∀ k reason, replies k ≠ .panicked reason) :
    ∃ n errors, binding.policy.IsLast (fun k => (replies k).delivered) n ∧
      (∀ k, 1 ≤ k → k < n →
        ∃ e, replies k = .failed e ∧ errors k = e.toCallError ∧
          .transport ∈ binding.policy.retryOn ∧ k < binding.policy.maxAttempts) ∧
      (∃ xs ending left, Path (c.invoke binding) xs (ending, left) ∧
          Hears (fun k => .inr (replies k)) xs) ∧
      (∀ request, attempt binding request =
          queryIn binding.policy Program.sleep (queryAttempt request)
            (fun response => pure (binding.handlers.judge response)) ∧
        attempt binding request =
          Prod.fst <$> (queryNoting binding.policy binding.handlers request).run []) ∧
      (∀ request xs r noted, Path ((queryNoting binding.policy binding.handlers request).run [])
        xs (r, noted) →
        Hears (fun k => .inr (replies k)) xs → noted = (replies n).response?.toList) ∧
      ∀ xs ending left, Path (c.invoke binding) xs (ending, left) →
        Hears (fun k => .inr (replies k)) xs →
        said xs = (List.range' 1 n).map (fun k => .inr (replies k)) ∧
        ((∃ response reason, replies n = .answered response ∧
          binding.handlers.judge response = .panicked reason) →
          (∃ reason, ending = .panicked reason) ∧ events xs = [.started c.id c.spec.function]) ∧
        ((∀ response reason, replies n = .answered response →
          binding.handlers.judge response ≠ .panicked reason) →
          ending = .returned ∧ (∃ args, requests xs = List.replicate n (c.request binding args)) ∧
          ∃ o, events xs = [.started c.id c.spec.function, .completed o] ∧ o.attempts = n ∧
            left.attempts = n ∧
            o.retried = (List.range' 1 (n - 1)).map errors ∧
            (replies n).Concludes binding.handlers o.error o.payload ∧
            left.lastError = o.error ∧ o.transactionId = none) := by
  obtain ⟨n, hlast⟩ := binding.policy.exists_isLast fun k => (replies k).delivered
  obtain ⟨delays, errors, hcourse⟩ := hlast.exists_course hdelays
  have hruns := runs_attempt_of_query hmode hcourse
  refine ⟨n, errors, hlast, ?_, exists_hears hruns c, ?_, fun request xs r noted h hhears =>
    noted_of_hears hcourse h hhears, ?_⟩
  · intro k hk hlt
    obtain ⟨cause, hreply, herror⟩ := Reply.failed_of_delivered (hcourse.failed k hk hlt)
    have hretries := hcourse.retried k hk hlt
    rw [herror] at hretries
    exact ⟨cause, hreply, herror, (RetryPolicy.isRetryable_iff.mp hretries.isRetryable).2,
      hretries.allowed⟩
  · intro request
    rw [← query_eq_queryNoting]
    unfold attempt
    rw [hmode]
    exact ⟨rfl, rfl⟩
  · intro xs ending left hpath hhears
    refine ⟨(invocation_of_hears hruns hpath hhears).1, ?_, ?_⟩
    · rintro ⟨response, reason, hreply, hjudge⟩
      obtain ⟨-, i, -, hr, ⟨hreturned, -⟩ | ⟨-, hending, hevents⟩⟩ :=
        invocation_of_hears hruns hpath hhears
      · refine absurd ⟨reason, ?_⟩ hreturned
        simp only [hr, hreply, Reply.delivered, Attempt.andThen, judged, hjudge, settledAs]
      · exact ⟨hending, hevents⟩
    · intro hjudge
      have hno : ∀ reason, (replies n).delivered.andThen (judged binding.handlers) ≠
          .panicked reason := by
        intro reason h
        obtain ⟨response, hreply, hpanic⟩ := panicked_of_judged (hreplies n) h
        exact hjudge response reason hreply hpanic
      obtain ⟨o, h⟩ := returns_of_hears hruns hno hpath hhears
      have hattempts :=
        hcourse.attempts_eq ((replies n).delivered.andThen (judged binding.handlers))
      refine ⟨h.ending, hattempts ▸ h.requests, o, h.events, h.attempts.trans hattempts,
        h.counted.trans hattempts, h.retried, ?_, h.lastError, ?_⟩
      · rw [h.error, h.payload]
        exact Reply.concludes_of_judged hno
      · exact h.transactionId.trans (transactionId_of_judged _ _)

/-! ### Queries that are not delivered -/

/-- A query whose policy would retry a refused response. -/
def insisting : Binding := { trusting with policy := { retryOn := [.transport, .endorsement] } }

/-- No response, and then one that nobody endorsed. -/
def refusedSecond : Nat → Reply QueryResponse
  | 1 => .failed (.noResponse "timeout")
  | _ => .answered ⟨[0x61], []⟩

theorem delivered_of_hears_refused :
    (∀ k, 1 ≤ k → k < 3 → ∃ delay, insisting.policy.nextDelay? k = .ok delay) ∧
    (∀ k reason, refusedSecond k ≠ .panicked reason) ∧
    ∃ xs left o, Path (getCall.invoke insisting) xs (.returned, left) ∧
      Hears (fun k => .inr (refusedSecond k)) xs ∧
      events xs = [.started getCall.id "get", .completed o] ∧ (requests xs).length = 2 ∧
      o.attempts = 2 ∧ left.attempts = 2 ∧
      o.retried = [⟨.transport, "no response: timeout", none⟩] ∧
        o.error.map CallError.kind = some .endorsement ∧ o.payload = none := by
  have hdelays : ∀ k, 1 ≤ k → k < 3 → ∃ delay, insisting.policy.nextDelay? k = .ok delay :=
    fun k hpos hlt => ⟨_, RetryPolicy.nextDelay?_default k hpos hlt⟩
  have hreplies : ∀ k reason, refusedSecond k ≠ .panicked reason := by
    intro k reason
    unfold refusedSecond
    split <;> simp
  obtain ⟨n, errors, hlast, hfailed, ⟨xs, ending, left, hpath, hhears⟩, -, -, hall⟩ :=
    @delivered_of_hears insisting rfl hdelays getCall refusedSecond hreplies
  obtain rfl : n = 2 := hlast.unique ⟨by decide, trivial, fun k hpos hlt => by
    obtain rfl : k = 1 := by omega
    decide⟩
  obtain ⟨cause, hfirst, herror, -⟩ := hfailed 1 (by decide) (by decide)
  obtain ⟨-, -, hreturns⟩ := hall xs ending left hpath hhears
  have hrejected : insisting.handlers.judge ⟨[0x61], []⟩ =
      .rejected ⟨.endorsement, "response carries no endorsements", none⟩ := rfl
  have hjudge : ∀ response reason, refusedSecond 2 = .answered response →
      insisting.handlers.judge response ≠ .panicked reason := by
    rintro response reason hresponse
    obtain rfl := Reply.answered.inj hresponse
    rw [hrejected]
    simp
  obtain ⟨rfl, ⟨args, hrequests⟩, o, hevents, hattempts, hleft, hretried, hconcludes, -⟩ :=
    hreturns hjudge
  obtain ⟨hrefused, hpayload⟩ := Reply.Concludes.of_rejected hrejected hconcludes
  refine ⟨hdelays, hreplies, xs, left, o, hpath, hhears, hevents, ?_, hattempts, hleft,
    ?_, ?_, hpayload⟩
  · rw [hrequests, List.length_replicate]
  · obtain rfl := Reply.failed.inj hfirst
    rw [hretried]
    simp only [List.range', List.map_cons, List.map_nil, herror]
    rfl
  · rw [hrefused]
    rfl

/-- A query whose policy may ask for a negative delay. -/
def hasty : Binding := { trusting with policy := .alternating }

/-- Such a query panics after its second request, although its policy allows three and asks for
another one. -/
theorem panicked_of_undelivered :
    let lost : Reply QueryResponse := .failed (.noResponse "timeout")
    hasty.policy.IsLast (fun _ => lost.delivered) 3 ∧
    ∃ xs reason left, Path (getCall.invoke hasty) xs (.panicked reason, left) ∧
      Hears (fun _ => .inr lost) xs ∧ (said xs).length = 2 ∧
        events xs = [.started getCall.id "get"] := by
  intro lost
  have hresults : ∀ k : Nat, (fun _ => lost.delivered) k =
      .failed ⟨.transport, "no response: timeout", none⟩ := fun _ => rfl
  obtain ⟨hlast, reason, hcourse⟩ := RetryPolicy.course_alternating hresults (by decide)
  have hruns := runs_attempt_of_query rfl (show hasty.policy.Course _ _ _ _ _ from hcourse)
  exact ⟨hlast, panics_of_runs hruns rfl getCall⟩

end CallTask

end LedgerBench
