import LedgerBench.Proofs.Run.Complete
/-!
What the statistics of a run account for.

The statistics are read when every group has reported its end; by then every call has been recorded,
whatever the ledger answered, and in whatever order the workers ran the groups. What is proved:
  1. `conclude_of_groupsCompleted`: no result is lost or counted twice.
  2. `retried_of_run`: a reported outcome has the errors of all attempts that were retried, unless
     the call panicked on a later attempt. So the attempts of a run are accounted for by its
     outcomes and its retried errors exactly if no call did that.
  3. `retried_of_panic`: a call that panics on its second attempt is reported with two attempts and
     no retried error.
-/

namespace LedgerBench

open Program

/-- Every call of a run is counted, once: there are so many iterations of so many entries, with
these tasks. -/
structure RunStatistics.Accounts (stats : RunStatistics) (iterations entries : Nat)
    (tasks : List TaskId) : Prop where
  groupsCompleted : stats.groupsCompleted = iterations
  groups : stats.groups = iterations
  expected : stats.expected = iterations * entries
  started : stats.started = stats.expected
  ended : stats.succeeded + stats.failures.length = stats.expected
  responses : stats.responses.length = stats.succeeded
  successDurations : stats.successDurations.length = stats.succeeded
  failureDurations : stats.failureDurations.length = stats.failures.length
  tasks : (stats.responses.map CallResponse.task ++ stats.failures.map FailedInvocation.task).Perm
    tasks

theorem RunStatistics.accounts_recordAll (run : RunId) (concurrency : Nat) (startedAt : Timestamp)
    {iterations entries : Nat} {tasks : List TaskId} {events : List Event}
    (hends : events.countP Event.isGroupEnd = iterations)
    (hstarts : events.countP Event.isStart = iterations * entries)
    (htasks : ((outcomes events).map Outcome.task).Perm tasks)
    (hlength : (outcomes events).length = iterations * entries) :
    ((RunStatistics.new run iterations entries concurrency startedAt).recordAll events).Accounts
      iterations entries tasks := by
  rw [RunStatistics.recordAll_eq]
  refine ⟨?_, rfl, rfl, ?_, ?_, ?_, ?_, ?_, ?_⟩
  · exact (Nat.zero_add _).trans hends
  · exact (Nat.zero_add _).trans hstarts
  · simp only [withOutcomes, RunStatistics.new, Nat.zero_add, List.nil_append]
    rw [length_isOk_add_failures, hlength]
  · simp only [withOutcomes, RunStatistics.new, Nat.zero_add, List.nil_append, List.length_map]
  · simp only [withOutcomes, RunStatistics.new, Nat.zero_add, List.nil_append, List.length_map]
  · simp only [withOutcomes, RunStatistics.new, List.nil_append, List.length_map, length_failures]
  · exact (LedgerBench.tasks_perm (outcomes events)).trans htasks

namespace Bench

variable {σ : Type} {b : Bench σ} {s : Session σ} {specs : List CallSpec} {mode : CallMode}
  {startedAt : Timestamp} {start later : Course σ} {labels : List RunLabel}

theorem runs_of_begin (hb : b.begin s specs mode startedAt = .ok start)
    (hr : start.run b.ledger labels = some later) :
    b.Begun s specs mode startedAt start ∧
      Course.Runs b.ledger start (start.history b.ledger labels) later :=
  ⟨begun_of_begin hb, Course.runs_of_run hr⟩

/-- No result is lost or counted twice: a run that has seen the end of each of its groups has
statistics, and they have every call of every group once. -/
theorem conclude_of_groupsCompleted (hb : b.begin s specs mode startedAt = .ok start)
    (hr : start.run b.ledger labels = some later)
    (hends : start.groups.length ≤ later.statistics.groupsCompleted) (finishedAt : Timestamp) :
    ∃ stats, conclude later finishedAt = .ok stats ∧
      stats.Accounts b.config.iterations specs.length
        (((b.groupTasks s.ids (s.drawn + 1) specs).flatMap Task.calls).map CallTask.id) ∧
      ((∀ g ∈ later.groups, g.attempts < Task.attemptBound) →
        stats.totalAttempts
          = ((outcomes (Act.events (start.history b.ledger labels))).map
              Outcome.attempts).sum) := by
  obtain ⟨hbegun, hruns⟩ := runs_of_begin hb hr
  have h := hbegun.complete hruns hends
  have haccounts := RunStatistics.accounts_recordAll ⟨s.ids s.drawn⟩ b.config.concurrency startedAt
    h.ends h.countP_isStart h.tasks_perm h.length_outcomes
  rw [← hbegun.statistics, ← h.statistics] at haccounts
  refine ⟨_, by rw [conclude, h.accepted], ?_, fun _ => h.totalAttempts_eq⟩
  -- The time and the attempts that are added last are not accounts.
  exact ⟨haccounts.groupsCompleted, haccounts.groups, haccounts.expected, haccounts.started,
    haccounts.ended,
    haccounts.responses, haccounts.successDurations, haccounts.failureDurations, haccounts.tasks⟩

/-! ### Two groups in turns -/

/-- A ledger that panics on its first call and commits every other one. -/
def recovering : Ledger Nat := Service.atOnce {
  submit _ calls := {
    reply :=
      if calls = 0 then .panicked "bang" else .answered { transactionId := "tx", code := .valid }
    next := calls + 1 }
  query _ calls := { reply := .panicked "bang", next := calls + 1 } }

def pair : Bench Nat where
  config := { concurrency := 2, iterations := 2 }
  policy := {}
  ledger := recovering
  handlers := []

/-- A schedule that has both groups on workers and lets them act in turns. -/
def turns : List RunLabel :=
  [.submit, .submit, .work 0 .check, .work 0 .lock, .work 0 .receive, .work 1 .check, .work 1 .lock,
    .work 1 .receive]
    ++ (List.replicate 7 [RunLabel.act 0, .act 1]).flatten ++ List.replicate 6 .record

theorem run_turns :
    ∃ start, pair.begin fresh [{ function := "put" }] .submit ⟨0⟩ = .ok start ∧
      ∃ later, start.run pair.ledger turns = some later ∧
        start.groups.length ≤ later.statistics.groupsCompleted := by
  refine ⟨_, rfl, ?_⟩
  apply exists_of_any
  decide +kernel

theorem conclude_of_groupsCompleted_turns :
    ∃ start later stats, pair.begin fresh [{ function := "put" }] .submit ⟨0⟩ = .ok start ∧
      start.run pair.ledger turns = some later ∧
      start.groups.length ≤ later.statistics.groupsCompleted ∧
      conclude later ⟨1⟩ = .ok stats ∧
      stats.Accounts 2 1
        (((pair.groupTasks fresh.ids 1 [{ function := "put" }]).flatMap Task.calls).map
        CallTask.id) ∧
      ((∀ g ∈ later.groups, g.attempts < Task.attemptBound) →
        stats.totalAttempts = ((outcomes (Act.events (start.history pair.ledger turns))).map
          Outcome.attempts).sum) := by
  obtain ⟨start, hb, later, hr, hends⟩ := run_turns
  obtain ⟨stats, hstats, haccounts, hattempts⟩ := conclude_of_groupsCompleted hb hr hends ⟨1⟩
  exact ⟨start, later, stats, hb, hr, hends, hstats, haccounts, hattempts⟩

/-! ## Retried errors -/

/-- Every reported outcome is that of an invocation of one of the calls of the group that reported
it. -/
theorem invocation_of_reported (hbegun : b.Begun s specs mode startedAt start) {acts : List Act}
    (hruns : Course.Runs b.ledger start acts later) {a : Act} (ha : a ∈ acts) {o : Outcome}
    (ho : a.exchange.event? = some (.completed o)) :
    ∃ i : Invocation (b.binding mode), i.outcome = o ∧ i.call ∈ callsOf s specs a.group ∧
      ∃ before after, Act.ofGroup a.group acts = before ++ i.exchanges ++ after := by
  have hlt := hruns.group_lt a ha
  rw [hbegun.length_groups] at hlt
  obtain ⟨id, is, rest, hcalls, hxs, -⟩ := hbegun.group_after hruns hlt
  have hreported : .completed o ∈ Program.events (Act.ofGroup a.group acts) := by
    refine List.mem_filterMap.mpr ⟨a.exchange, List.mem_map_of_mem ?_, ho⟩
    exact List.mem_filter.mpr ⟨ha, decide_eq_true rfl⟩
  obtain ⟨i, hi, hout, hwhole⟩ := Task.invocation_of_completed hxs hreported
  exact ⟨i, hout, hcalls ▸ List.mem_map_of_mem hi, hwhole⟩

/-- A reported outcome has the errors of the attempts that were retried, unless the call panicked on
a later attempt than its first. The attempts of a complete run are accounted for by its outcomes and
its retried errors exactly if no call did that. -/
theorem retried_of_run (hb : b.begin s specs mode startedAt = .ok start)
    (hr : start.run b.ledger labels = some later) :
    (∀ a ∈ start.history b.ledger labels, ∀ o, a.exchange.event? = some (.completed o) →
      ∃ i : Invocation (b.binding mode), i.outcome = o ∧ i.call ∈ callsOf s specs a.group ∧
        (∃ before after, Act.ofGroup a.group (start.history b.ledger labels) =
            before ++ i.exchanges ++ after) ∧
        o.attempts = (tries i.exchanges).length ∧
        (o.retried.map some = (tries i.exchanges).dropLast ↔ (i.Panicked → o.attempts = 1)) ∧
        (o.retried.length + 1 = o.attempts ↔ (i.Panicked → o.attempts = 1))) ∧
      (start.groups.length ≤ later.statistics.groupsCompleted →
        (∀ g ∈ later.groups, g.attempts < Task.attemptBound) →
        (later.totalAttempts = later.statistics.invocations +
          later.statistics.transientErrors.length ↔
          ∀ o ∈ outcomes (Act.events (start.history b.ledger labels)),
            o.retried.length + 1 = o.attempts)) := by
  obtain ⟨hbegun, hruns⟩ := runs_of_begin hb hr
  constructor
  · intro a ha o ho
    obtain ⟨i, rfl, hcall, hwhole⟩ := invocation_of_reported hbegun hruns ha ho
    exact ⟨i, rfl, hcall, hwhole, i.attempts_eq_tries, i.retried_eq_iff, i.length_retried_iff⟩
  · intro hends _
    have h := hbegun.complete hruns hends
    have hle : ∀ o ∈ outcomes (Act.events (start.history b.ledger labels)),
        o.retried.length + 1 ≤ o.attempts := by
      intro o ho
      obtain ⟨event, hevent, hout⟩ := List.mem_filterMap.mp ho
      obtain ⟨x, hx, hxe⟩ := List.mem_filterMap.mp hevent
      obtain ⟨a, ha, rfl⟩ := List.mem_map.mp hx
      cases event with
      | completed o' =>
        obtain rfl := Option.some.inj hout
        obtain ⟨i, rfl, -⟩ := invocation_of_reported hbegun hruns ha hxe
        exact i.length_retried_le
      | started task function => cases hout
      | groupCompleted group members attempts error => cases hout
    -- The sums agree if and only if every summand does, since none is too small.
    rw [← (sum_attempts_eq_iff hle).2, h.totalAttempts_eq, h.statistics, hbegun.statistics,
      RunStatistics.recordAll_eq]
    have hinvocations :=
      length_isOk_add_failures (outcomes (Act.events (start.history b.ledger labels)))
    simp only [RunStatistics.invocations, RunStatistics.withOutcomes, RunStatistics.new,
      Nat.zero_add, List.nil_append, hinvocations]

theorem retried_of_run_turns :
    ∃ start later, pair.begin fresh [{ function := "put" }] .submit ⟨0⟩ = .ok start ∧
      start.run pair.ledger turns = some later ∧
      start.groups.length ≤ later.statistics.groupsCompleted ∧
      (∀ a ∈ start.history pair.ledger turns, ∀ o, a.exchange.event? = some (.completed o) →
        ∃ i : Invocation (pair.binding .submit), i.outcome = o ∧
          i.call ∈ callsOf fresh [{ function := "put" }] a.group ∧
          (∃ before after, Act.ofGroup a.group (start.history pair.ledger turns) =
            before ++ i.exchanges ++ after) ∧
          o.attempts = (tries i.exchanges).length ∧
          (o.retried.map some = (tries i.exchanges).dropLast ↔ (i.Panicked → o.attempts = 1)) ∧
          (o.retried.length + 1 = o.attempts ↔ (i.Panicked → o.attempts = 1))) ∧
      ((∀ g ∈ later.groups, g.attempts < Task.attemptBound) →
        (later.totalAttempts = later.statistics.invocations +
          later.statistics.transientErrors.length ↔
          ∀ o ∈ outcomes (Act.events (start.history pair.ledger turns)),
            o.retried.length + 1 = o.attempts)) := by
  obtain ⟨start, hb, later, hr, hends⟩ := run_turns
  obtain ⟨hreported, htotal⟩ := retried_of_run hb hr
  exact ⟨start, later, hb, hr, hends, hreported, htotal hends⟩

/-! ### A panic after a retry -/

/-- A ledger that does not respond to its first call and panics on every other one. -/
def faltering : Ledger Nat := Service.atOnce {
  submit _ calls := {
    reply := if calls = 0 then .failed (.noResponse "timeout") else .panicked "bang"
    next := calls + 1 }
  query _ calls := { reply := .panicked "bang", next := calls + 1 } }

def single : Bench Nat where
  config := { concurrency := 1 }
  policy := {}
  ledger := faltering
  handlers := []

/-- A schedule in which the group waits once, before its second attempt. -/
def inOrder : List RunLabel :=
  [.submit, .work 0 .check, .work 0 .lock, .work 0 .receive] ++ List.replicate 5
    (RunLabel.act 0) ++ [.wait]
    ++ List.replicate 5 (RunLabel.act 0) ++ List.replicate 3 .record

/-- A call that panics on its second attempt is reported with two attempts and none of the errors
that were retried, and the attempts of the run are more than its invocations and its transient
errors. -/
theorem retried_of_panic :
    ∃ start, single.begin fresh [{ function := "put" }] .submit ⟨0⟩ = .ok start ∧
      ∃ later, start.run single.ledger inOrder = some later ∧
        start.groups.length ≤ later.statistics.groupsCompleted ∧
        tries (Act.ofGroup 0 (start.history single.ledger inOrder))
          = [some (TransportError.noResponse "timeout").toCallError, none] ∧
        (outcomes (Act.events (start.history single.ledger inOrder))).map Outcome.attempts = [2] ∧
        (outcomes (Act.events (start.history single.ledger inOrder))).map Outcome.retried = [[]] ∧
        later.totalAttempts = 2 ∧
          later.statistics.invocations + later.statistics.transientErrors.length = 1 := by
  refine ⟨_, rfl, ?_⟩
  apply exists_of_any
  decide +kernel

end Bench

end LedgerBench
