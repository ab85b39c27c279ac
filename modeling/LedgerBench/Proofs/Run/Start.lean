import LedgerBench.Run.Session
/-!
How a run begins.

Whether a run can begin depends on its sizes only, which are those of its groups, of the number of
its calls, of its queue and of its workers; what it begins with depends on the session too. What is
proved:
  1. `Executor.start_new`: a new executor starts, unless its queue or its workers cannot be made.
  2. `Bench.begin_eq`: a run begins in one state (`Bench.starting`), unless there is an obstacle,
     over which it panics.
  3. `Bench.obstacle?_eq_none_iff`: there is none exactly if every size can be made
     (`Bench.CanBegin`).
-/

namespace LedgerBench

/-! ## Executors -/

namespace Executor

variable {J : Type}

/-- An executor that has just been started. -/
def opened (concurrency capacity : Nat) : Executor J :=
  { Executor.new concurrency capacity with
    pools := [{ workers := List.replicate (max concurrency 1) .checking }]
    isRunning := true }

/-- Raising the limits of an executor to one makes none of them too large. -/
theorem start_new (concurrency capacity : Nat) :
    (new concurrency capacity : Executor J).start =
      if maxQueue < capacity then .error queueTooLong
      else if maxItems < concurrency then .error tooManyItems
      else .ok (opened concurrency capacity) := by
  have hraised : ∀ {n bound : Nat}, 1 ≤ bound → (bound < max n 1 ↔ bound < n) := by omega
  have hqueue : maxQueue < max capacity 1 ↔ maxQueue < capacity := hraised (by decide)
  have hworkers : maxItems < max concurrency 1 ↔ maxItems < concurrency := hraised (by decide)
  unfold start new
  simp only [Bool.false_eq_true, if_false, hqueue, hworkers]
  rfl

theorem start_new_eq_ok_iff {concurrency capacity : Nat} :
    (∃ later, (new concurrency capacity : Executor J).start = .ok later) ↔
      capacity ≤ maxQueue ∧ concurrency ≤ maxItems := by
  rw [start_new]
  by_cases hqueue : maxQueue < capacity
  · rw [if_pos hqueue]
    exact ⟨nofun, fun h => absurd h.1 (Nat.not_le_of_lt hqueue)⟩
  rw [if_neg hqueue]
  by_cases hworkers : maxItems < concurrency
  · rw [if_pos hworkers]
    exact ⟨nofun, fun h => absurd h.2 (Nat.not_le_of_lt hworkers)⟩
  rw [if_neg hworkers]
  exact ⟨fun _ => ⟨Nat.le_of_not_lt hqueue, Nat.le_of_not_lt hworkers⟩, fun _ => ⟨_, rfl⟩⟩

/-- The queue is made before the workers, and so it is the queue that is complained of where neither
can be made. -/
theorem start_new_eq_queueTooLong_iff {concurrency capacity : Nat} :
    (new concurrency capacity : Executor J).start = .error queueTooLong ↔ maxQueue < capacity := by
  have hne : tooManyItems ≠ queueTooLong := by decide +kernel
  rw [start_new]
  by_cases hqueue : maxQueue < capacity
  · rw [if_pos hqueue]
    exact iff_of_true rfl hqueue
  rw [if_neg hqueue]
  by_cases hworkers : maxItems < concurrency
  · rw [if_pos hworkers]
    exact iff_of_false (fun h => hne (Except.error.inj h)) hqueue
  · rw [if_neg hworkers]
    exact iff_of_false nofun hqueue

end Executor

/-! ## Runs -/

namespace Bench

variable {σ : Type} {b : Bench σ} {s : Session σ} {specs : List CallSpec} {mode : CallMode}
  {startedAt : Timestamp} {start : Course σ}

/-- Why a run with some entries cannot begin: the first of its sizes that is too large. -/
def obstacle? (b : Bench σ) (entries : Nat) : Option String :=
  if Executor.maxItems < b.config.iterations then some Executor.tooManyItems
  else if Progress.countBound ≤ b.config.iterations * entries then some tooManyCalls
  else if Executor.maxQueue < b.config.queueCapacity then some Executor.queueTooLong
  else if Executor.maxItems < b.config.concurrency then some Executor.tooManyItems
  else none

/-- A run at its start. -/
def starting (b : Bench σ) (s : Session σ) (specs : List CallSpec) (mode : CallMode)
    (startedAt : Timestamp) : Course σ where
  world := { scope := s.scope, ledger := s.ledger }
  executor := Executor.opened b.config.concurrency b.config.queueCapacity
  groups := (b.groupTasks s.ids (s.drawn + 1) specs).map fun t =>
    { todo := t.runIsolated (b.binding mode) }
  interval := b.config.submitInterval
  statistics := RunStatistics.new ⟨s.ids s.drawn⟩ b.config.iterations specs.length
    b.config.concurrency startedAt

theorem begin_eq (b : Bench σ) (s : Session σ) (specs : List CallSpec) (mode : CallMode)
    (startedAt : Timestamp) :
    b.begin s specs mode startedAt =
      match b.obstacle? specs.length with
      | some reason => .error (.panicked reason)
      | none => .ok (b.starting s specs mode startedAt) := by
  unfold Bench.begin RunStatistics.new? obstacle?
  rw [Executor.start_new]
  by_cases hgroups : Executor.maxItems < b.config.iterations
  · rw [if_pos hgroups, if_pos hgroups]
  rw [if_neg hgroups, if_neg hgroups]
  by_cases hcalls : b.config.iterations * specs.length < Progress.countBound
  · rw [if_pos hcalls, if_neg (Nat.not_le_of_lt hcalls)]
    by_cases hqueue : Executor.maxQueue < b.config.queueCapacity
    · rw [if_pos hqueue, if_pos hqueue]
    rw [if_neg hqueue, if_neg hqueue]
    by_cases hworkers : Executor.maxItems < b.config.concurrency
    · rw [if_pos hworkers, if_pos hworkers]
    · rw [if_neg hworkers, if_neg hworkers]
      rfl
  · rw [if_neg hcalls, if_pos (Nat.le_of_not_lt hcalls)]

theorem begin_eq_ok_iff :
    b.begin s specs mode startedAt = .ok start ↔ b.obstacle? specs.length = none ∧
      b.starting s specs mode startedAt = start := by
  rw [begin_eq]
  cases b.obstacle? specs.length <;> simp

theorem begin_eq_error_iff {e : RunError} :
    b.begin s specs mode startedAt = .error e ↔ ∃ reason, b.obstacle? specs.length = some reason ∧
      e = .panicked reason := by
  rw [begin_eq]
  cases b.obstacle? specs.length <;> simp [eq_comm]

/-- The sizes of a run can be made: its groups, its queue and its workers, and the number of its
calls, for a batch with some entries. -/
structure CanBegin (b : Bench σ) (entries : Nat) : Prop where
  groups : b.config.iterations ≤ Executor.maxItems
  calls : b.config.iterations * entries < Progress.countBound
  queue : b.config.queueCapacity ≤ Executor.maxQueue
  workers : b.config.concurrency ≤ Executor.maxItems

theorem obstacle?_eq_none_iff {entries : Nat} :
    b.obstacle? entries = none ↔ b.CanBegin entries := by
  unfold obstacle?
  by_cases hgroups : Executor.maxItems < b.config.iterations
  · rw [if_pos hgroups]
    exact ⟨nofun, fun h => absurd h.groups (Nat.not_le_of_lt hgroups)⟩
  rw [if_neg hgroups]
  by_cases hcalls : Progress.countBound ≤ b.config.iterations * entries
  · rw [if_pos hcalls]
    exact ⟨nofun, fun h => absurd h.calls (Nat.not_lt_of_le hcalls)⟩
  rw [if_neg hcalls]
  by_cases hqueue : Executor.maxQueue < b.config.queueCapacity
  · rw [if_pos hqueue]
    exact ⟨nofun, fun h => absurd h.queue (Nat.not_le_of_lt hqueue)⟩
  rw [if_neg hqueue]
  by_cases hworkers : Executor.maxItems < b.config.concurrency
  · rw [if_pos hworkers]
    exact ⟨nofun, fun h => absurd h.workers (Nat.not_le_of_lt hworkers)⟩
  rw [if_neg hworkers]
  exact ⟨fun _ => ⟨Nat.le_of_not_lt hgroups, Nat.lt_of_not_le hcalls, Nat.le_of_not_lt hqueue,
    Nat.le_of_not_lt hworkers⟩, fun _ => rfl⟩

theorem begin_iff :
    (∃ start, b.begin s specs mode startedAt = .ok start) ↔ b.CanBegin specs.length := by
  rw [← obstacle?_eq_none_iff]
  exact ⟨fun ⟨_, h⟩ => (begin_eq_ok_iff.mp h).1, fun h => ⟨_, begin_eq_ok_iff.mpr ⟨h, rfl⟩⟩⟩

end Bench

end LedgerBench
