import LedgerBench.Proofs.Task.Group
import LedgerBench.Proofs.Task.Submitted
/-!
Transactions of a call.

A submission that is answered has committed a transaction, whatever its code, and the answer names
it. What is proved:
  1. `commits_of_tries`: attempts that failed have committed the transactions that their errors
     name.
  2. `Invocation.transactionIds_eq`: the outcome of an invocation in submit mode names the
     transactions that its attempts committed, in their order, unless it panicked; then it names
     none.
  3. `Task.transactionIds_sublist`: the outcomes that a group has reported at any time name
     transactions that it committed, in their order.
-/

namespace LedgerBench

open Program

/-! ## Committed transactions -/

namespace Program

/-- The transaction that an exchange committed. -/
def Exchange.commit? : Exchange → Option String
  | ⟨.submit _, .answered response⟩ => some response.transactionId
  | _ => none

/-- The transactions that some exchanges committed, in order. -/
def commits (xs : List Exchange) : List String := xs.filterMap Exchange.commit?

theorem commits_append (xs ys : List Exchange) : commits (xs ++ ys) = commits xs ++ commits ys :=
  List.filterMap_append

end Program

/-- The transaction that an attempt to submit names: its own, or the one that its error is about. -/
def Attempt.transactionId? : Attempt String → Option String
  | .ok id => some id
  | .failed e => e.transactionId
  | .panicked _ => none

namespace Program

theorem Exchange.commit?_submit (request : Request) (reply : Reply TxResponse) :
    Exchange.commit? ⟨.submit request, reply⟩ = reply.committed.transactionId? := by
  cases reply with
  | answered response =>
    show some response.transactionId = (CallTask.classify response).transactionId?
    unfold CallTask.classify
    split
    · rfl
    · rfl
  | failed e => rfl
  | panicked reason => rfl

/-- What is no attempt commits nothing, and an attempt that failed has committed what its error
names. -/
theorem Exchange.commit?_of_tried? (x : Exchange) :
    (x.tried? = none → x.commit? = none) ∧ ∀ e, x.tried? = some (some e) →
      x.commit? = e.transactionId := by
  obtain ⟨effect, answer⟩ := x
  cases effect with
  | submit request =>
    refine ⟨fun h => (nomatch h), fun e h => ?_⟩
    have herror : (Reply.committed answer).error? = some e := Option.some.inj h
    rw [commit?_submit]
    cases hcommitted : Reply.committed answer with
    | failed e' =>
      rw [hcommitted] at herror
      obtain rfl := Option.some.inj herror
      rfl
    | ok id =>
      rw [hcommitted] at herror
      cases herror
    | panicked reason =>
      rw [hcommitted] at herror
      cases herror
  | query request =>
    refine ⟨fun h => (nomatch h), fun e h => ?_⟩
    cases answer with
    | failed cause =>
      obtain rfl := Option.some.inj (Option.some.inj h)
      rfl
    | answered response => cases h
    | panicked reason => cases h
  | now => exact ⟨fun _ => rfl, fun e h => nomatch h⟩
  | resolve form body => exact ⟨fun _ => rfl, fun e h => nomatch h⟩
  | sleep delay => exact ⟨fun _ => rfl, fun e h => nomatch h⟩
  | emit event => exact ⟨fun _ => rfl, fun e h => nomatch h⟩

/-- Where all attempts failed, their errors name what they committed. -/
theorem commits_of_tries {xs : List Exchange} {errors : List CallError}
    (h : tries xs = errors.map some) :
    commits xs = errors.filterMap CallError.transactionId := by
  induction xs generalizing errors with
  | nil =>
    cases errors with
    | nil => rfl
    | cons e rest => cases h
  | cons x xs ih =>
    obtain ⟨hnone, hfailed⟩ := x.commit?_of_tried?
    unfold tries at h
    cases htried : x.tried? with
    | none =>
      rw [List.filterMap_cons_none htried] at h
      exact (List.filterMap_cons_none (hnone htried)).trans (ih h)
    | some e? =>
      rw [List.filterMap_cons_some htried] at h
      cases errors with
      | nil => cases h
      | cons e rest =>
        obtain ⟨rfl, hrest⟩ := List.cons.inj h
        rw [commits, List.filterMap_cons, List.filterMap_cons, hfailed e htried]
        cases e.transactionId with
        | none => exact ih hrest
        | some id => exact congrArg (id :: ·) (ih hrest)

end Program

/-! ## What an outcome names -/

namespace Outcome

/-- The transaction that the end of a call names. -/
def ending? (o : Outcome) : Option String :=
  match o.error with
  | none => o.transactionId
  | some e => e.transactionId

/-- The transactions that an outcome names: those of its retried errors and the one of its end. -/
def transactionIds (o : Outcome) : List String :=
  o.retried.filterMap CallError.transactionId ++ o.ending?.toList

end Outcome

namespace Invocation

variable {binding : Binding} (i : Invocation binding)

/-- The attempts of a submission have committed what the kept errors name, and what the last of them
names. -/
theorem commits_attempting (hmode : binding.mode = .submit) :
    ∃ ended : Attempt String, commits i.attempting =
      i.retried.errors.filterMap CallError.transactionId ++ ended.transactionId?.toList ∧
      (i.retried.result = ended.andThen CallTask.settledBy ∨ i.Panicked) := by
  have hpath := i.attempted
  unfold CallTask.attempt at hpath
  rw [hmode] at hpath
  obtain ⟨s, hloop, hr⟩ := path_bind_pure_iff.mp hpath
  obtain ⟨earlier, last, ended, t⟩ := path_retry (isAttempt_submitAttempt _) hloop
  obtain ⟨reply, hlast, rfl⟩ := CallTask.path_submitAttempt_iff.mp t.path
  refine ⟨reply.committed, ?_, ?_⟩
  · have herrors : commits earlier = s.errors.filterMap CallError.transactionId :=
      commits_of_tries t.errors.symm
    have hone : commits [last] = reply.committed.transactionId?.toList := by
      rw [hlast, commits, List.filterMap_cons, Exchange.commit?_submit]
      cases reply.committed.transactionId? <;> rfl
    rw [t.exchanges, commits_append, herrors, hone, hr]
  · rw [hr]
    rcases t.result with hended | ⟨reason, hpanicked⟩
    · left
      show _ = Attempt.andThen _ _
      rw [← hended]
      cases s.result <;> rfl
    · right
      refine ⟨reason, ?_⟩
      rw [hr, hpanicked]

theorem commits_exchanges : commits i.exchanges = commits i.attempting :=
  i.filterMap_exchanges fun ⟨effect, _⟩ h => by cases effect <;>
    first | rfl | exact absurd trivial h

theorem transactionIds_eq (hmode : binding.mode = .submit) (h : ¬ i.Panicked) :
    i.outcome.transactionIds = commits i.exchanges := by
  obtain ⟨ended, hcommits, hresult⟩ := i.commits_attempting hmode
  have hreturns := i.returns h
  rw [commits_exchanges, hcommits, Outcome.transactionIds, hreturns.retried]
  refine congrArg (fun id? : Option String => _ ++ id?.toList) ?_
  unfold Outcome.ending?
  rw [hreturns.error, hreturns.transactionId, hresult.resolve_right h]
  cases ended with
  | ok id => rfl
  | failed e => rfl
  | panicked reason => rfl

theorem transactionIds_of_panicked (h : i.Panicked) : i.outcome.transactionIds = [] := by
  obtain ⟨reason, hr⟩ := id h
  have herror := i.error_of_panicked hr
  rw [Outcome.transactionIds, i.retried_of_panicked h, Outcome.ending?, herror]
  rfl

theorem transactionIds_sublist (hmode : binding.mode = .submit) :
    i.outcome.transactionIds.Sublist (commits i.exchanges) := by
  by_cases h : i.Panicked
  · rw [i.transactionIds_of_panicked h]
    exact List.nil_sublist _
  · rw [i.transactionIds_eq hmode h]

theorem outcomes_exchanges : outcomes (events i.exchanges) = [i.outcome] := by
  rw [i.events_eq]
  rfl

end Invocation

/-! ## What a group has reported -/

namespace Task

variable {binding : Binding} {id : TaskId} {is : List (Invocation binding)}
  {xs rest : List Exchange}

theorem transactionIds_sublist (hmode : binding.mode = .submit)
    (h : xs ++ rest = is.flatMap Invocation.exchanges ++ [groupReport id is]) :
    ((outcomes (events xs)).flatMap Outcome.transactionIds).Sublist (commits xs) := by
  have hreport : outcomes (events [groupReport id is]) = [] := rfl
  -- All that the induction needs of the group's report is that it is no call's.
  generalize groupReport id is = report at h hreport
  induction is generalizing xs with
  | nil =>
    have hnone : outcomes (events xs) = [] := by
      have hall : outcomes (events xs) ++ outcomes (events rest) = [] := by
        rw [← outcomes_append, ← events_append, h]
        exact hreport
      exact (List.append_eq_nil_iff.mp hall).1
    rw [hnone]
    exact List.nil_sublist _
  | cons i is ih =>
    rw [List.flatMap_cons, List.append_assoc, List.append_eq_append_iff] at h
    rcases h with ⟨missing, hwhole, -⟩ | ⟨more, rfl, hmore⟩
    -- The group has not come past its first call. Either nothing was reported, or that call's
    -- invocation is whole.
    · cases hout : outcomes (events xs) with
      | nil => exact List.nil_sublist _
      | cons o os =>
        have hmem : o ∈ outcomes (events xs) := by simp [hout]
        obtain ⟨rfl, -⟩ := completed_of_beginning hwhole.symm (mem_outcomes.mp hmem)
        rw [← hout, i.outcomes_exchanges, List.flatMap_singleton]
        exact i.transactionIds_sublist hmode
    · rw [events_append, outcomes_append, List.flatMap_append, commits_append, i.outcomes_exchanges,
        List.flatMap_singleton]
      exact (i.transactionIds_sublist hmode).append (ih hmore.symm)

/-- A group that is done committed what its calls did. -/
theorem commits_group (is : List (Invocation binding)) (id : TaskId) :
    commits (is.flatMap Invocation.exchanges ++ [groupReport id is]) = is.flatMap fun i =>
      commits i.exchanges := by
  have hreport : commits [groupReport id is] = [] := rfl
  rw [commits_append, hreport, List.append_nil]
  exact List.filterMap_flatMap

end Task

end LedgerBench
