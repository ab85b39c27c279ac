import LedgerBench.Proofs.Task.Heard
import LedgerBench.Proofs.Task.Trace
/-!
Submissions and their replies.

What is proved:
  1. `Reply.classified_committed`: what an attempt to submit comes to is settled by the validation
     code of the response, or by there being none.
  2. `CallTask.submitted_of_hears`: an invocation of a call in submit mode sends as many requests as
     the law of retries asks for, and its outcome, the call's own bookkeeping and the requests agree
     on how many there were and what became of them.
-/

namespace LedgerBench

open Program

/-! ## Replies to submissions -/

/-- What a reply to a submission says about the call: the response's transaction took effect, met a
conflict that may clear up, or was refused; or there was no response. Only a response has a
transaction to name. -/
inductive Reply.Classified : Reply TxResponse → Attempt String → Prop where
  | valid {id : String} : Classified (.answered ⟨id, .valid⟩) (.ok id)
  | conflict {id message : String} {code : ValidationCode}
    (h : code ∈ [.duplicateTxid, .mvccReadConflict, .phantomReadConflict]) :
      Classified (.answered ⟨id, code⟩) (.failed ⟨.transient, message, some id⟩)
  | refused {id message : String} {code : ValidationCode}
    (h : code ∉ [.valid, .duplicateTxid, .mvccReadConflict, .phantomReadConflict]) :
      Classified (.answered ⟨id, code⟩) (.failed ⟨.persistent, message, some id⟩)
  | lost {e : TransportError} {message : String} :
    Classified (.failed e) (.failed ⟨.transport, message, none⟩)

namespace Reply

theorem classified_committed {reply : Reply TxResponse} (h : ∀ reason, reply ≠ .panicked reason) :
    reply.Classified reply.committed := by
  cases reply with
  | answered response =>
    obtain ⟨id, code⟩ := response
    cases code with
    | valid => exact .valid
    | duplicateTxid => exact .conflict (by decide)
    | mvccReadConflict => exact .conflict (by decide)
    | phantomReadConflict => exact .conflict (by decide)
    | other number => exact .refused (by simp)
    | _ => exact .refused (by decide)
  | failed e => exact .lost
  | panicked reason => exact absurd rfl (h reason)

theorem Classified.kind_ne_endorsement {reply : Reply TxResponse} {e : CallError}
    (h : reply.Classified (.failed e)) : e.kind ≠ .endorsement := by
  cases h <;> simp

theorem Classified.not_panicked {reply : Reply TxResponse} {a : Attempt String}
    (h : reply.Classified a) (reason : String) : a ≠ .panicked reason := by
  cases h <;> simp

end Reply

/-! ## Calls in submit mode -/

namespace CallTask

variable {binding : Binding} {replies : Nat → Reply TxResponse} {delays : Nat → Duration}
  {errors : Nat → CallError} {n : Nat} {result : Attempt String}

/-- A submitted call that is settled leaves its transaction and no payload. -/
def settledBy (id : String) : Attempt Settled := .ok { transactionId := some id }

theorem settled_of_committed {a : Attempt String} (h : ∀ reason, a ≠ .panicked reason) :
    (∀ reason, a.andThen settledBy ≠ .panicked reason) ∧ (a.andThen settledBy).error? = a.error? ∧
      (a.andThen settledBy).value?.bind Settled.transactionId = a.value? ∧
        (a.andThen settledBy).value?.bind Settled.payload = none := by
  cases a with
  | ok id => exact ⟨by simp [Attempt.andThen, settledBy], rfl, rfl, rfl⟩
  | failed e => exact ⟨by simp [Attempt.andThen], rfl, rfl, rfl⟩
  | panicked reason => exact absurd rfl (h reason)

/-- What the attempts of a call in submit mode come to. -/
theorem runs_attempt_of_submit (hmode : binding.mode = .submit)
    (c : binding.policy.Course (fun k => (replies k).committed) delays errors n result)
    (request : Request) :
    (hearing fun k => .inl (replies k)).runs (attempt binding request) 0
      ⟨result.andThen settledBy, (List.range' 1 (n - 1)).map errors⟩ n := by
  unfold attempt
  rw [hmode]
  refine (hearing _).runs_bind (Hearing.runs_retry c fun i =>
    Hearing.runs_submitAttempt replies request i) ?_
  cases result <;> exact (hearing _).runs_pure _ _

/-- An invocation in submit mode. Its attempts are those of the law of retries, and so are the
requests, the counters and the errors. -/
theorem submitted_of_hears (hmode : binding.mode = .submit)
    (hdelays : ∀ k, 1 ≤ k → k < binding.policy.maxAttempts →
      ∃ delay, binding.policy.nextDelay? k = .ok delay) (c : CallTask)
    (replies : Nat → Reply TxResponse) (hreplies : ∀ k reason, replies k ≠ .panicked reason) :
    ∃ n errors, binding.policy.IsLast (fun k => (replies k).committed) n ∧
      (∀ k, (replies k).Classified (replies k).committed) ∧
      (∀ k e, (replies k).committed = .failed e → e.kind ≠ .endorsement) ∧
      (∀ k, 1 ≤ k → k < n → (replies k).committed = .failed (errors k)) ∧
      (∃ xs ending left, Path (c.invoke binding) xs (ending, left) ∧
          Hears (fun k => .inl (replies k)) xs) ∧
      ∀ xs ending left, Path (c.invoke binding) xs (ending, left) →
        Hears (fun k => .inl (replies k)) xs →
        ending = .returned ∧ said xs = (List.range' 1 n).map (fun k => .inl (replies k)) ∧
        (∃ args, requests xs = List.replicate n (c.request binding args)) ∧
        ∃ o, events xs = [.started c.id c.spec.function, .completed o] ∧ o.attempts = n ∧
          left.attempts = n ∧
          o.retried = (List.range' 1 (n - 1)).map errors ∧ o.error = (replies n).committed.error? ∧
          left.lastError = o.error ∧
          o.transactionId = (replies n).committed.value? ∧ o.payload = none := by
  have hclassified : ∀ k, (replies k).Classified (replies k).committed :=
    fun k => Reply.classified_committed (hreplies k)
  obtain ⟨n, hlast⟩ := binding.policy.exists_isLast fun k => (replies k).committed
  obtain ⟨delays, errors, hcourse⟩ := hlast.exists_course hdelays
  have hruns := runs_attempt_of_submit hmode hcourse
  refine ⟨n, errors, hlast, hclassified, ?_, hcourse.failed, exists_hears hruns c, ?_⟩
  · intro k e he
    exact (he ▸ hclassified k).kind_ne_endorsement
  · intro xs ending left hpath hhears
    obtain ⟨hno, herror, htransaction, hpayload⟩ :=
      settled_of_committed (hclassified n).not_panicked
    obtain ⟨o, h⟩ := returns_of_hears hruns hno hpath hhears
    have hattempts := hcourse.attempts_eq ((replies n).committed.andThen settledBy)
    refine ⟨h.ending, (invocation_of_hears hruns hpath hhears).1, ?_, o, h.events, ?_, ?_,
      h.retried, ?_, h.lastError, ?_, ?_⟩
    · exact hattempts ▸ h.requests
    · exact h.attempts.trans hattempts
    · exact h.counted.trans hattempts
    · exact h.error.trans herror
    · exact h.transactionId.trans htransaction
    · exact h.payload.trans hpayload

/-! ### Conflicts -/

/-- A conflict, no response, and then a transaction that takes effect. -/
def settlingThird : Nat → Reply TxResponse
  | 1 => .answered ⟨"first", .mvccReadConflict⟩
  | 2 => .failed (.noResponse "timeout")
  | _ => .answered ⟨"third", .valid⟩

theorem submitted_of_hears_third :
    (∀ k, 1 ≤ k → k < 3 → ∃ delay, ({} : RetryPolicy).nextDelay? k = .ok delay) ∧
    (∀ k reason, settlingThird k ≠ .panicked reason) ∧
    ∃ xs left o, Path (Task.putCall.invoke Task.submitting) xs (.returned, left) ∧
      Hears (fun k => .inl (settlingThird k)) xs ∧
      events xs = [.started Task.putCall.id "put", .completed o] ∧ (requests xs).length = 3 ∧
      o.attempts = 3 ∧ left.attempts = 3 ∧
      o.retried.map CallError.kind = [.transient, .transport] ∧
      o.retried.map CallError.transactionId = [some "first", none] ∧
      o.error = none ∧ o.transactionId = some "third" := by
  have hdelays : ∀ k, 1 ≤ k → k < 3 → ∃ delay, ({} : RetryPolicy).nextDelay? k = .ok delay :=
    fun k hpos hlt => ⟨_, RetryPolicy.nextDelay?_default k hpos hlt⟩
  have hreplies : ∀ k reason, settlingThird k ≠ .panicked reason := by
    intro k reason
    unfold settlingThird
    split <;> simp
  obtain ⟨n, errors, hlast, -, -, hfailed, ⟨xs, ending, left, hpath, hhears⟩, hall⟩ :=
    @submitted_of_hears Task.submitting rfl hdelays Task.putCall settlingThird hreplies
  obtain rfl : n = 3 := hlast.unique ⟨by decide, trivial, fun k hpos hlt => by
    obtain rfl | rfl : k = 1 ∨ k = 2 := by omega
    · decide
    · decide⟩
  obtain ⟨rfl, -, ⟨args, hrequests⟩, o, hevents, hattempts, hleft, hretried, herror, -,
    htransaction, -⟩ := hall xs ending left hpath hhears
  have hfirst := Attempt.failed.inj (hfailed 1 (by decide) (by decide))
  have hsecond := Attempt.failed.inj (hfailed 2 (by decide) (by decide))
  refine ⟨hdelays, hreplies, xs, left, o, hpath, hhears, hevents, ?_, hattempts, hleft, ?_, ?_,
    herror, htransaction⟩
  · rw [hrequests, List.length_replicate]
  · rw [hretried]
    simp only [List.range', List.map_cons, List.map_nil, ← hfirst, ← hsecond]
    rfl
  · rw [hretried]
    simp only [List.range', List.map_cons, List.map_nil, ← hfirst, ← hsecond]
    rfl

/-- A call in submit mode whose policy may ask for a negative delay. -/
def unchecked : Binding := { Task.submitting with policy := .alternating }

/-- A policy may ask for a negative delay. The call then panics after its second request, although
its policy allows three and asks for another one. -/
theorem panicked_of_conflicts :
    let conflict : Reply TxResponse := .answered ⟨"tx", .mvccReadConflict⟩
    unchecked.policy.IsLast (fun _ => conflict.committed) 3 ∧
    ∃ xs reason left, Path (Task.putCall.invoke unchecked) xs (.panicked reason, left) ∧
      Hears (fun _ => .inl conflict) xs ∧ (said xs).length = 2 ∧
        events xs = [.started Task.putCall.id "put"] := by
  intro conflict
  have hresults : ∀ k : Nat, (fun _ => conflict.committed) k =
      .failed ⟨.transient, "transaction invalidated with code MVCC_READ_CONFLICT", some "tx"⟩ :=
    fun _ => rfl
  obtain ⟨hlast, reason, hcourse⟩ := RetryPolicy.course_alternating hresults (by decide)
  have hruns := runs_attempt_of_submit rfl (show unchecked.policy.Course _ _ _ _ _ from hcourse)
  exact ⟨hlast, panics_of_runs hruns rfl Task.putCall⟩

end CallTask

end LedgerBench
