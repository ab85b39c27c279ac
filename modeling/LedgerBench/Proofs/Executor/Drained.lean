import LedgerBench.Proofs.Executor.History
/-!
Executors that are stopped only after their queues are drained.

The schedules here may start and stop an executor any number of times and submit jobs at any moment;
no stop drops a queue. What is proved:
  1. `Executor.Sound.submit_full_iff` and `Executor.Sound.submit_notRunning_iff`: when a job is
     refused. A refused job changes nothing (`Executor.step_of_refused`).
  2. `Pool.Runs.drains`: no pool is ever signalled.
  3. `Pool.Drained`: once the stop of a pool that was not signalled has returned, every accepted job
     was begun in the order of submission and has ended, and the jobs that panicked are those that
     were abandoned (`Pool.drained_of_runs`).
  4. `Executor.drained_of_run`: all of this in every state that such a schedule reaches.
-/

namespace LedgerBench

namespace Executor

variable {J : Type} {e later : Executor J}

/-! ## Refusals -/

/-- The open pool of an executor. -/
def openPool? (e : Executor J) : Option (Pool J) := e.pools.find? fun pool => pool.stage = .open

theorem Sound.openPool?_eq (he : e.Sound) :
    e.openPool? = if e.isRunning then e.pools.getLast? else none := by
  split
  · rename_i hrunning
    obtain ⟨pool, hlast, hopen⟩ := he.exists_open hrunning
    obtain ⟨init, hinit⟩ := List.getLast?_eq_some_iff.mp hlast
    have hearlier : ∀ other ∈ init, other.stage ≠ .open := by
      intro other hother hopen
      obtain ⟨i, hi⟩ := List.mem_iff_getElem?.mp hother
      have hlt : i < init.length := (List.getElem?_eq_some_iff.mp hi).1
      have hpools : e.pools[i]? = some other := by rw [hinit, List.getElem?_append_left hlt, hi]
      have hi := ((he.isOpen i other hpools).mp hopen).2
      rw [hinit, List.length_append, List.length_singleton] at hi
      omega
    rw [hlast, openPool?, hinit, List.find?_append,
      List.find?_eq_none.mpr (by simpa using hearlier)]
    simp [hopen]
  · rename_i hrunning
    rw [openPool?, List.find?_eq_none]
    simpa using he.not_open (Bool.not_eq_true _ ▸ hrunning)

theorem Sound.submit_eq (he : e.Sound) (job : J) :
    e.submit job =
      match e.openPool? with
      | some pool =>
        if e.capacity ≤ pool.queue.length then .error (.queueFull e.capacity)
        else .ok { e with
          pools := e.pools.dropLast ++ [{ pool with queue := pool.queue ++ [job] }]
          log := .accepted job :: e.log }
      | none => .error .notRunning := by
  rw [he.openPool?_eq]
  unfold submit
  cases hrunning : e.isRunning <;> cases e.pools.getLast? <;> rfl

/-- A job is refused for want of room when there is an open pool whose queue is as long as it may
be. -/
theorem Sound.submit_full_iff (he : e.Sound) (job : J) (capacity : Nat) :
    e.submit job = .error (.queueFull capacity) ↔
      capacity = e.capacity ∧ ∃ pool, e.openPool? = some pool ∧ pool.queue.length = e.capacity := by
  rw [he.submit_eq]
  cases hopen : e.openPool? with
  | none => simp
  | some pool =>
    have hle : pool.queue.length ≤ e.capacity :=
      (he.pools pool (List.mem_of_find?_eq_some hopen)).queue
    simp only [Option.some.injEq, exists_eq_left']
    split
    · rename_i hfull
      have heq : pool.queue.length = e.capacity := by omega
      simp [heq, eq_comm]
    · rename_i hroom
      have hne : pool.queue.length ≠ e.capacity := by omega
      simp [hne]

theorem Sound.submit_notRunning_iff (he : e.Sound) (job : J) :
    e.submit job = .error .notRunning ↔ e.openPool? = none := by
  rw [he.submit_eq]
  cases e.openPool? with
  | none => simp
  | some pool =>
    simp only [reduceCtorEq, iff_false]
    split <;> simp

theorem step_of_refused {job : J} {refusal : SubmitError} (h : e.submit job = .error refusal) :
    e.step (.submit job) = some e ∧ e.events (.submit job) = [] := by
  constructor
  · simp only [step, h]
  · simp only [events, h]

end Executor

/-! ## Pools without the signal -/

namespace Pool

variable {J : Type} {n capacity : Nat} {p q : Pool J}

/-- Neither signalled nor about to be. -/
def Drains (p : Pool J) : Prop := p.signal = false ∧ p.stage ≠ .requested false

theorem Step.drains {event : PoolEvent J} (h : Step capacity p event q)
    (hevent : event ≠ .taken false) (hp : p.Drains) : q.Drains := by
  obtain ⟨hsignal, hstage⟩ := hp
  cases h with
  | accept job _ _ => exact ⟨hsignal, hstage⟩
  | take drain _ =>
    refine ⟨hsignal, fun h => ?_⟩
    obtain rfl := StopStage.requested.inj h
    exact hevent rfl
  | signal h => exact absurd h hstage
  | close _ => exact ⟨hsignal, by simp⟩
  | conclude _ _ => exact ⟨hsignal, by simp⟩
  | work _ _ _ => exact ⟨hsignal, hstage⟩

theorem Runs.drains {history : List (PoolEvent J)} (h : Runs capacity p history q)
    (hhistory : .taken false ∉ history) (hp : p.Drains) : q.Drains := by
  induction h with
  | start => exact hp
  | step head _ ih =>
    rw [List.mem_cons, not_or] at hhistory
    exact ih hhistory.2 (head.drains (Ne.symm hhistory.1) hp)

/-- A pool whose stop has returned and that has run every job it accepted. -/
structure Drained (history : List (PoolEvent J)) (p : Pool J) : Prop where
  left : ∀ w ∈ p.workers, w = .left
  queue : p.queue = []
  /-- What was accepted has been begun once, in the order of submission, and nothing else. -/
  begun : recorded JobRecord.begun? history = recorded JobRecord.accepted? history
  ended : (recorded JobRecord.ended? history).Perm (recorded JobRecord.accepted? history)
  abandoned : (recorded JobRecord.abandoned? history).Perm (recorded JobRecord.panicked? history)

theorem drained_of_runs {history : List (PoolEvent J)} (h : Runs capacity (fresh n) history p)
    (hn : 0 < n) (hsignal : p.signal = false) (hstage : p.stage = .returned) :
    p.Drained history := by
  have hp : p.Sound n capacity := (sound_fresh n capacity).runs h
  have hleft : ∀ w ∈ p.workers, w = .left := allLeft_iff.mp (hp.returned hstage)
  -- There is a worker, and it did not leave before the queue was empty.
  have hqueue : p.queue = [] := by
    have hlen : 0 < p.workers.length := by rw [hp.workers]; exact hn
    have hfirst : p.workers[0] = .left := hleft _ (List.getElem_mem hlen)
    exact (hp.left hsignal (hfirst ▸ List.getElem_mem hlen)).1
  have hbegun : recorded JobRecord.begun? history = recorded JobRecord.accepted? history := by
    have hjobs := h.queue_eq
    rw [hqueue, List.append_nil] at hjobs
    exact hjobs.symm
  -- No worker holds a job: not at the beginning, and not once all have left.
  have hrunning : p.running = [] := flatMap_of_forall_eq rfl hleft
  have habandoning : p.abandoning = [] := flatMap_of_forall_eq rfl hleft
  have hended := h.running_perm
  have habandoned := h.abandoning_perm
  rw [running_fresh, hrunning, List.append_nil, List.append_nil] at hended
  rw [abandoning_fresh, habandoning, List.append_nil, List.append_nil] at habandoned
  exact ⟨hleft, hqueue, hbegun, hbegun ▸ hended.symm, habandoned.symm⟩

end Pool

/-! ## Draining schedules -/

namespace Executor

variable {J : Type} {e later : Executor J}

theorem mem_ofPool {index : Nat} {event : PoolEvent J} {history : List (Nat × PoolEvent J)}
    (h : event ∈ ofPool index history) : (index, event) ∈ history := by
  obtain ⟨⟨i, other⟩, hmem, hsome⟩ := List.mem_filterMap.mp h
  simp only [Option.ite_none_right_eq_some, Option.some.injEq] at hsome
  obtain ⟨rfl, rfl⟩ := hsome
  exact hmem

/-- Where no stop drops a queue: queues stay within their bound, a job is refused when no pool is
open or the open one's queue is full, and only then, which changes nothing; each pool begins jobs in
the order in which it accepted them; and when the stop of a pool has returned, every job it accepted
has been begun once and has ended, those that panicked have been abandoned once, and no worker is
left. -/
theorem drained_of_run {concurrency capacity : Nat} {labels : List (Label J)}
    (h : (new concurrency capacity).run labels = some later) (hl : .stop false ∉ labels) :
    (∀ pool ∈ later.pools, pool.queue.length ≤ later.capacity) ∧
    (∀ job capacity, later.submit job = .error (.queueFull capacity) ↔
      capacity = later.capacity ∧ ∃ pool, later.openPool? = some pool ∧
        pool.queue.length = later.capacity) ∧
    (∀ job, later.submit job = .error .notRunning ↔ later.openPool? = none) ∧
    (∀ job refusal, later.submit job = .error refusal →
      later.step (.submit job) = some later ∧ later.events (.submit job) = []) ∧
    ∀ index pool, later.pools[index]? = some pool →
      let history := ofPool index ((new concurrency capacity).history labels)
      recorded JobRecord.accepted? history = recorded JobRecord.begun? history ++ pool.queue ∧
      (pool.stage = .returned → pool.Drained history) := by
  have hlater : later.Sound := sound_of_run h
  refine ⟨fun pool hpool => (hlater.pools pool hpool).queue, hlater.submit_full_iff,
    hlater.submit_notRunning_iff,
    fun job refusal => step_of_refused, ?_⟩
  intro index pool hp history
  have hruns : Pool.Runs (max capacity 1) (.fresh (max concurrency 1)) history pool :=
    runs_of_new h hp
  have htaken : .taken false ∉ history := fun hmem => hl (taken_of_mem_history (mem_ofPool hmem))
  have hsignal : pool.signal = false := (hruns.drains htaken ⟨rfl, by simp [Pool.fresh]⟩).1
  constructor
  · simpa [Pool.fresh] using hruns.queue_eq
  · exact Pool.drained_of_runs hruns (by omega) hsignal

/-- Two workers and two slots: one job is refused for want of room, one because the executor was
stopped, and one panics. -/
def drainLabels : List (Label Nat) :=
  [.start, .submit 0, .submit 1, .submit 2,
    .work 0 0 .check, .work 0 0 .lock, .work 0 0 .receive, .submit 3,
    .work 0 1 .check, .work 0 1 .lock, .work 0 1 .receive, .work 0 1 (.panic "bang"),
    .work 0 1 .abandon,
    .stop true, .submit 4, .advanceStop 0,
    .work 0 1 .check, .work 0 1 .lock, .work 0 1 .receive, .work 0 1 .finish,
    .work 0 1 .check, .work 0 1 .lock, .work 0 1 .leave,
    .work 0 0 .finish, .work 0 0 .check, .work 0 0 .lock, .work 0 0 .leave, .advanceStop 0]

theorem drained_of_run_refused :
    ∃ later pool, (new 2 2).run drainLabels = some later ∧ .stop false ∉ drainLabels ∧
    later.pools[0]? = some pool ∧ pool.stage = .returned ∧
    recorded JobRecord.accepted? (ofPool 0 ((new 2 2).history drainLabels)) = [0, 1, 3] ∧
    pool.Drained (ofPool 0 ((new 2 2).history drainLabels)) :=
  ⟨_, _, rfl, by decide, rfl, rfl, rfl,
    ((@drained_of_run Nat _ 2 2 drainLabels rfl (by decide)).2.2.2.2 0 _ rfl).2 rfl⟩

end Executor

end LedgerBench
