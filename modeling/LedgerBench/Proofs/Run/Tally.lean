import LedgerBench.Proofs.Task.Path
import LedgerBench.Run.Statistics
import Mathlib.Data.List.Perm.Basic
/-!
Statistics in closed form.

Recording is a fold, and each field of the statistics depends on the events of one kind only. What
is proved:
  1. `recordAll_eq`: every field after some events, as a count or a list over these events.
  2. `length_isOk_add_failures`, `tasks_perm`: the successes and the failures together are the
     outcomes, each once.
  3. `sum_attempts_eq_iff`: the attempts of some outcomes are as many as the outcomes and their
     retried errors exactly if every outcome has an error for each attempt but one.
-/

namespace LedgerBench

namespace Event

def isOutcome (e : Event) : Bool := e.outcome?.isSome

end Event

theorem length_outcomes (events : List Event) :
    (outcomes events).length = events.countP Event.isOutcome :=
  List.length_filterMap_eq_countP

namespace Outcome

def isOk (o : Outcome) : Bool := o.error.isNone

/-- What is recorded of a call that failed. -/
def failure? (o : Outcome) : Option FailedInvocation :=
  o.error.map fun error => { task := o.task, function := o.function, attempts := o.attempts, error }

end Outcome

namespace RunStatistics

/-- The statistics after some more outcomes. -/
def withOutcomes (s : RunStatistics) (os : List Outcome) : RunStatistics :=
  { s with
    succeeded := s.succeeded + (os.filter Outcome.isOk).length
    failures := s.failures ++ os.filterMap Outcome.failure?
    responses := s.responses ++ (os.filter Outcome.isOk).map CallResponse.ofOutcome
    transientErrors := s.transientErrors ++ os.flatMap retriedErrors
    successDurations := s.successDurations ++ (os.filter Outcome.isOk).map Outcome.duration
    failureDurations := s.failureDurations ++ (os.filter fun o => !o.isOk).map Outcome.duration }

theorem withOutcomes_cons (s : RunStatistics) (o : Outcome) (os : List Outcome) :
    s.withOutcomes (o :: os) = (s.recordOutcome o).withOutcomes os := by
  unfold recordOutcome
  cases he : o.error with
  | none =>
    have hok : o.isOk = true := by rw [Outcome.isOk, he, Option.isNone_none]
    simp [withOutcomes, Outcome.failure?, he, hok, Nat.add_comm, Nat.add_left_comm]
  | some error =>
    have hok : o.isOk = false := by rw [Outcome.isOk, he, Option.isNone_some]
    simp [withOutcomes, Outcome.failure?, he, hok]

theorem recordAll_eq (s : RunStatistics) (events : List Event) :
    s.recordAll events =
      { s.withOutcomes (outcomes events) with
        groupsCompleted := s.groupsCompleted + events.countP Event.isGroupEnd
        started := s.started + events.countP Event.isStart } := by
  induction events generalizing s with
  | nil => simp [recordAll, outcomes, withOutcomes]
  | cons event rest ih =>
    show (s.record event).recordAll rest = _
    rw [ih]
    cases event with
    | started task function =>
      have hcons : outcomes (.started task function :: rest) = outcomes rest := rfl
      rw [hcons]
      simp [record, withOutcomes, List.countP_cons, Event.isStart, Event.isGroupEnd, Nat.add_comm,
        Nat.add_left_comm]
    | completed o =>
      have hcons : outcomes (.completed o :: rest) = o :: outcomes rest := rfl
      have hgroups : (s.recordOutcome o).groupsCompleted = s.groupsCompleted := by
        unfold recordOutcome
        cases o.error <;> rfl
      have hstarted : (s.recordOutcome o).started = s.started := by
        unfold recordOutcome
        cases o.error <;> rfl
      rw [hcons, withOutcomes_cons]
      simp [record, hgroups, hstarted, Event.isStart, Event.isGroupEnd]
    | groupCompleted group members attempts error =>
      have hcons : outcomes (.groupCompleted group members attempts error :: rest) =
          outcomes rest := rfl
      rw [hcons]
      simp [record, withOutcomes, List.countP_cons, Event.isStart, Event.isGroupEnd, Nat.add_comm,
        Nat.add_left_comm]

end RunStatistics

/-! ## Successes and failures -/

theorem tasks_failures (os : List Outcome) :
    (os.filterMap Outcome.failure?).map FailedInvocation.task =
      (os.filter fun o => !o.isOk).map Outcome.task := by
  induction os with
  | nil => rfl
  | cons o rest ih =>
    cases he : o.error with
    | none =>
      have hok : o.isOk = true := by rw [Outcome.isOk, he, Option.isNone_none]
      simpa [Outcome.failure?, he, hok] using ih
    | some error =>
      have hok : o.isOk = false := by rw [Outcome.isOk, he, Option.isNone_some]
      simpa [Outcome.failure?, he, hok] using ih

theorem length_failures (os : List Outcome) :
    (os.filterMap Outcome.failure?).length = (os.filter fun o => !o.isOk).length := by
  have h := congrArg List.length (tasks_failures os)
  rwa [List.length_map, List.length_map] at h

theorem length_isOk_add_failures (os : List Outcome) :
    (os.filter Outcome.isOk).length + (os.filterMap Outcome.failure?).length = os.length := by
  rw [length_failures, ← List.length_append]
  exact (List.filter_append_perm Outcome.isOk os).length_eq

/-- The tasks that answered and the tasks that failed are those of the outcomes. -/
theorem tasks_perm (os : List Outcome) :
    (((os.filter Outcome.isOk).map CallResponse.ofOutcome).map CallResponse.task
      ++ (os.filterMap Outcome.failure?).map FailedInvocation.task).Perm (os.map Outcome.task) := by
  rw [List.map_map, tasks_failures]
  show ((os.filter Outcome.isOk).map Outcome.task ++ (os.filter fun o => !o.isOk).map
    Outcome.task).Perm _
  rw [← List.map_append]
  exact (List.filter_append_perm Outcome.isOk os).map Outcome.task

/-! ## Attempts -/

theorem length_retriedErrors (o : Outcome) :
    (RunStatistics.retriedErrors o).length = o.retried.length :=
  List.length_mapIdx

theorem map_error_retriedErrors (o : Outcome) :
    (RunStatistics.retriedErrors o).map FailedInvocation.error = o.retried := by
  apply List.ext_getElem?
  intro i
  simp only [RunStatistics.retriedErrors, List.getElem?_map, List.getElem?_mapIdx, Option.map_map]
  exact congrFun Option.map_id _

/-- Attempts are counted by outcomes and retried errors exactly if every outcome has an error for
each attempt but one. -/
theorem sum_attempts_eq_iff {os : List Outcome} (h : ∀ o ∈ os, o.retried.length + 1 ≤ o.attempts) :
    os.length + (os.flatMap RunStatistics.retriedErrors).length ≤ (os.map Outcome.attempts).sum ∧
      ((os.map Outcome.attempts).sum = os.length + (os.flatMap RunStatistics.retriedErrors).length ↔
        ∀ o ∈ os, o.retried.length + 1 = o.attempts) := by
  induction os with
  | nil => simp
  | cons o rest ih =>
    obtain ⟨ho, hrest⟩ := List.forall_mem_cons.mp h
    obtain ⟨hle, hiff⟩ := ih hrest
    rw [List.forall_mem_cons, ← hiff]
    simp only [List.map_cons, List.sum_cons, List.length_cons, List.flatMap_cons,
      List.length_append, length_retriedErrors]
    omega

end LedgerBench
