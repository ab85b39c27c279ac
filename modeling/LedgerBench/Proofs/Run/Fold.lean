import LedgerBench.Proofs.Run.Summary
import LedgerBench.Proofs.Run.Tally
/-!
Statistics as a fold over any events.

Groups are completed in any order, and so the statistics must not depend on it. Nothing is assumed
about the events here, not even that a run reports them. What is proved:
  1. `retriedErrors_eq`: the retried errors of an outcome are numbered from one on, as long as there
     are fewer than 32 bits can count; `not_records_of_le`: with more of them they are not.
  2. `records_recordAll`: the counters count their events, and each list has its part of the
     outcomes, in the order in which they arrive.
  3. `sameUpToOrder_recordAll`: the events in another order give the same counters and summaries,
     and the same lists up to order.
  4. `recordAll_records_sameUpToOrder`: both, from statistics that are new; `not_records_tireless`
     has an outcome with too many retried errors, and statistics of too many calls.
-/

namespace LedgerBench

namespace RunStatistics

variable {s t : RunStatistics} {events others : List Event}

/-- The retried errors of an outcome, numbered from one on. -/
def numbered (o : Outcome) : List FailedInvocation :=
  (o.retried.zipIdx 1).map fun (error, n) =>
    { task := o.task, function := o.function, attempts := n, error }

theorem getElem?_numbered (o : Outcome) (i : Nat) :
    (numbered o)[i]? = (o.retried[i]?).map fun error =>
    { task := o.task, function := o.function, attempts := 1 + i, error } := by
  simp only [numbered, List.getElem?_map, List.getElem?_zipIdx, Option.map_map, Function.comp_def]

theorem getElem?_retriedErrors (o : Outcome) (i : Nat) :
    (retriedErrors o)[i]? = (o.retried[i]?).map fun error =>
    { task := o.task, function := o.function, attempts := FailedInvocation.attemptNumber i,
      error } :=
  List.getElem?_mapIdx

/-- Retried errors that 32 bits can count are numbered from one on. -/
theorem retriedErrors_eq {o : Outcome} (h : o.retried.length < Task.attemptBound) :
    retriedErrors o = numbered o := by
  apply List.ext_getElem?
  intro i
  rw [getElem?_retriedErrors, getElem?_numbered]
  rcases Nat.lt_or_ge i o.retried.length with hi | hi
  · have hnumber : FailedInvocation.attemptNumber i = 1 + i := by
      rw [FailedInvocation.attemptNumber, Nat.mod_eq_of_lt (by omega), Nat.add_comm]
    rw [hnumber]
  · rw [List.getElem?_eq_none hi]
    rfl

/-- Where there are more of them, the count has begun again at zero. -/
theorem retriedErrors_ne {o : Outcome} (h : Task.attemptBound ≤ o.retried.length) :
    retriedErrors o ≠ numbered o := by
  intro heq
  have hpos : 0 < Task.attemptBound := Nat.two_pow_pos 32
  have hlast := congrArg (fun l => (l[Task.attemptBound - 1]?).map FailedInvocation.attempts) heq
  simp only [getElem?_retriedErrors, getElem?_numbered,
    List.getElem?_eq_getElem (show Task.attemptBound - 1 < o.retried.length by omega),
    Option.map_some, Option.some.injEq,
    FailedInvocation.attemptNumber, Nat.sub_add_cancel hpos, Nat.mod_self] at hlast
  omega

/-- What statistics say of the events that were recorded since they were `s`. -/
structure Records (s t : RunStatistics) (events : List Event) : Prop where
  responses : t.succeeded = t.responses.length
  successDurations : t.succeeded = t.successDurations.length
  failureDurations : t.failures.length = t.failureDurations.length
  invocations : t.invocations = events.countP Event.isOutcome
  started : t.started = events.countP Event.isStart
  groupsCompleted : t.groupsCompleted = events.countP Event.isGroupEnd
  transientErrors : t.transientErrors = (outcomes events).flatMap numbered
  expected : t.expected = s.expected
  groups : t.groups = s.groups
  concurrency : t.concurrency = s.concurrency
  run : t.run = s.run

/-- What is not a list: the counters, and what is known from the start. -/
def scalars (s : RunStatistics) : RunStatistics :=
  { s with failures := [], responses := [], transientErrors := [], successDurations := [],
           failureDurations := [] }

/-- Statistics that tell the same, with lists in another order. -/
structure SameUpToOrder (s t : RunStatistics) : Prop where
  scalars : s.scalars = t.scalars
  progress : s.progress = t.progress
  invocations : s.invocations = t.invocations
  failures : s.failures.Perm t.failures
  responses : s.responses.Perm t.responses
  transientErrors : s.transientErrors.Perm t.transientErrors
  successDurations : s.successDurations.Perm t.successDurations
  failureDurations : s.failureDurations.Perm t.failureDurations
  successSummary :
    DurationSummary.ofSamples s.successDurations = DurationSummary.ofSamples t.successDurations
  failureSummary :
    DurationSummary.ofSamples s.failureDurations = DurationSummary.ofSamples t.failureDurations
  allSummary : DurationSummary.ofSamples s.allDurations = DurationSummary.ofSamples t.allDurations

/-- Statistics that a run starts with. -/
theorem eq_new_of_new? {run : RunId} {groups entries concurrency : Nat} {startedAt : Timestamp}
    (h : new? run groups entries concurrency startedAt = some s) :
    s = new run groups entries concurrency startedAt := by
  unfold new? at h
  split at h
  · exact (Option.some.inj h).symm
  · cases h

theorem records_recordAll (run : RunId) (groups entries concurrency : Nat) (startedAt : Timestamp)
    (h : ∀ o ∈ outcomes events, o.retried.length < Task.attemptBound) :
    (new run groups entries concurrency startedAt).Records
      ((new run groups entries concurrency startedAt).recordAll events) events := by
  rw [recordAll_eq]
  refine ⟨?_, ?_, ?_, ?_, Nat.zero_add _, Nat.zero_add _, ?_, rfl, rfl, rfl, rfl⟩
  · show 0 + _ = ((outcomes events).filter Outcome.isOk |>.map CallResponse.ofOutcome).length
    rw [Nat.zero_add, List.length_map]
  · show 0 + _ = ((outcomes events).filter Outcome.isOk |>.map Outcome.duration).length
    rw [Nat.zero_add, List.length_map]
  · show ((outcomes events).filterMap Outcome.failure?).length =
      ((outcomes events).filter (fun o => !o.isOk) |>.map Outcome.duration).length
    rw [length_failures, List.length_map]
  · show 0 + _ + ((outcomes events).filterMap Outcome.failure?).length = _
    rw [Nat.zero_add, length_isOk_add_failures, length_outcomes]
  · show (outcomes events).flatMap retriedErrors = _
    exact List.flatMap_congr fun o ho => retriedErrors_eq (h o ho)

/-- An outcome with more retried errors than 32 bits can count is not recorded as it says. -/
theorem not_records_of_le (run : RunId) (groups entries concurrency : Nat) (startedAt : Timestamp)
    {o : Outcome} (h : Task.attemptBound ≤ o.retried.length) :
    ¬ (new run groups entries concurrency startedAt).Records
      ((new run groups entries concurrency startedAt).recordAll [.completed o]) [.completed o] := by
  intro hrecords
  have htransient := hrecords.transientErrors
  rw [recordAll_eq] at htransient
  have hone : ([] ++ [o].flatMap retriedErrors : List FailedInvocation) = [o].flatMap numbered :=
    htransient
  rw [List.nil_append, List.flatMap_singleton, List.flatMap_singleton] at hone
  exact retriedErrors_ne h hone

/-- Everything else is the same as soon as the scalars and the lists are. -/
theorem SameUpToOrder.of_perm (hscalars : s.scalars = t.scalars)
    (hfailures : s.failures.Perm t.failures) (hresponses : s.responses.Perm t.responses)
    (htransient : s.transientErrors.Perm t.transientErrors)
    (hsuccess : s.successDurations.Perm t.successDurations)
    (hfailure : s.failureDurations.Perm t.failureDurations) : s.SameUpToOrder t := by
  have hexpected : s.expected = t.expected := congrArg (·.expected) hscalars
  have hstarted : s.started = t.started := congrArg (·.started) hscalars
  have hsucceeded : s.succeeded = t.succeeded := congrArg (·.succeeded) hscalars
  refine ⟨hscalars, ?_, ?_, hfailures, hresponses, htransient, hsuccess, hfailure,
    DurationSummary.ofSamples_perm hsuccess,
    DurationSummary.ofSamples_perm hfailure,
      DurationSummary.ofSamples_perm (hsuccess.append hfailure)⟩
  · unfold RunStatistics.progress
    rw [hexpected, hstarted, hsucceeded, hfailures.length_eq]
  · unfold RunStatistics.invocations
    rw [hsucceeded, hfailures.length_eq]

theorem sameUpToOrder_recordAll (s : RunStatistics) (p : events.Perm others) :
    (s.recordAll events).SameUpToOrder (s.recordAll others) := by
  have pout : (outcomes events).Perm (outcomes others) := p.filterMap Event.outcome?
  rw [recordAll_eq, recordAll_eq, p.countP_eq Event.isGroupEnd, p.countP_eq Event.isStart]
  refine .of_perm ?_ ?_ ?_ ?_ ?_ ?_
  · simp only [RunStatistics.scalars, withOutcomes, (pout.filter Outcome.isOk).length_eq]
  · exact (pout.filterMap Outcome.failure?).append_left s.failures
  · exact ((pout.filter Outcome.isOk).map CallResponse.ofOutcome).append_left s.responses
  · exact (pout.flatMap fun o _ => .refl (retriedErrors o)).append_left s.transientErrors
  · exact ((pout.filter Outcome.isOk).map Outcome.duration).append_left s.successDurations
  · exact ((pout.filter fun o => !o.isOk).map Outcome.duration).append_left s.failureDurations

/-- New statistics record any events faithfully that have fewer retried errors to an outcome than 32
bits can count, and in any order to the same effect. -/
theorem recordAll_records_sameUpToOrder {run : RunId} {groups entries concurrency : Nat}
    {startedAt : Timestamp} (hnew : new? run groups entries concurrency startedAt = some s)
    (hretried : ∀ o ∈ outcomes events, o.retried.length < Task.attemptBound)
    (p : events.Perm others) :
    s.expected = groups * entries ∧ s.groups = groups ∧ s.concurrency = concurrency ∧ s.run = run ∧
      s.Records (s.recordAll events) events ∧
        (s.recordAll events).SameUpToOrder (s.recordAll others) := by
  obtain rfl := eq_new_of_new? hnew
  exact ⟨rfl, rfl, rfl, rfl, records_recordAll run groups entries concurrency startedAt hretried,
    sameUpToOrder_recordAll _ p⟩

/-! ### Two calls and a group, backwards -/

def commitError : CallError where
  kind := .transport
  message := "no response"

def retriedCall : Outcome where
  task := ⟨⟨1⟩⟩
  function := "put"
  attempts := 3
  duration := Duration.ofMillis 30
  error := none
  retried := [commitError, commitError]
  transactionId := some "tx"
  payload := none

def failedCall : Outcome where
  task := ⟨⟨2⟩⟩
  function := "get"
  attempts := 1
  duration := Duration.ofMillis 10
  error := some commitError
  retried := []
  transactionId := none
  payload := none

/-- A group that ends before its members, and calls that end before they start. -/
def backwards : List Event :=
  [.groupCompleted ⟨⟨0⟩⟩ 2 4 (some commitError), .completed failedCall, .completed retriedCall,
    .started ⟨⟨2⟩⟩ "get", .started ⟨⟨1⟩⟩ "put"]

theorem recordAll_records_sameUpToOrder_backwards :
    new? ⟨⟨0⟩⟩ 1 2 1 ⟨0⟩ = some (new ⟨⟨0⟩⟩ 1 2 1 ⟨0⟩) ∧
      (∀ o ∈ outcomes backwards, o.retried.length < Task.attemptBound) ∧
      backwards.Perm backwards.reverse ∧
      (new ⟨⟨0⟩⟩ 1 2 1 ⟨0⟩).Records ((new ⟨⟨0⟩⟩ 1 2 1 ⟨0⟩).recordAll backwards) backwards ∧
      ((new ⟨⟨0⟩⟩ 1 2 1 ⟨0⟩).recordAll backwards).SameUpToOrder
        ((new ⟨⟨0⟩⟩ 1 2 1 ⟨0⟩).recordAll backwards.reverse) ∧
      ((new ⟨⟨0⟩⟩ 1 2 1 ⟨0⟩).recordAll backwards).transientErrors.map FailedInvocation.attempts =
        [1, 2] := by
  have hnew : new? ⟨⟨0⟩⟩ 1 2 1 ⟨0⟩ = some (new ⟨⟨0⟩⟩ 1 2 1 ⟨0⟩) := by decide +kernel
  have hretried : ∀ o ∈ outcomes backwards, o.retried.length < Task.attemptBound := by
    decide +kernel
  have p := (List.reverse_perm backwards).symm
  obtain ⟨-, -, -, -, hrecords, hsame⟩ := recordAll_records_sameUpToOrder hnew hretried p
  exact ⟨hnew, hretried, p, hrecords, hsame, by decide +kernel⟩

/-! ### More than can be counted -/

/-- The call was retried until the number of its attempts took a bit more than there are. -/
def tireless : Outcome :=
  { retriedCall with retried := List.replicate Task.attemptBound commitError }

/-- Not every outcome is recorded as it says, and there are no statistics of more calls than can be
counted. -/
theorem not_records_tireless :
    (¬ (new ⟨⟨0⟩⟩ 1 1 1 ⟨0⟩).Records ((new ⟨⟨0⟩⟩ 1 1 1 ⟨0⟩).recordAll [.completed tireless])
      [.completed tireless]) ∧
      new? ⟨⟨0⟩⟩ (2 ^ 32) (2 ^ 32) 1 ⟨0⟩ = none := by
  refine ⟨not_records_of_le _ _ _ _ _ ?_, by decide +kernel⟩
  exact Nat.le_of_eq List.length_replicate.symm

end RunStatistics

end LedgerBench
