import LedgerBench.Proofs.Executor.Pool
import LedgerBench.Proofs.Run.History
import LedgerBench.Proofs.Run.Start
/-!
The workers of a run.

A run has one pool, whose workers take the groups that were submitted. What is proved:
  1. `Staffed`: there is one pool, with as many workers as at the start, and it holds only submitted
     groups; a run that was refused a group has groups left to submit. A run that begins is staffed
     (`Bench.begun_of_begin`) and stays so (`Staffed.of_step`).
  2. `Runs.act_lt`: only submitted groups act.
  3. `Runs.alone`: where there is one worker, a group that it runs is the only one to act until it
     has nothing left to do.
-/

namespace LedgerBench

open Program

theorem GroupCourse.isDone_iff {σ : Type} {g : GroupCourse σ} :
    g.isDone = true ↔ ∃ t, g.todo = .done t := by
  unfold GroupCourse.isDone
  cases hg : g.todo with
  | done t => simp
  | act effect next => simp

/-! ## One pool -/

namespace Pool

variable {J : Type}

/-- Whether a job is queued in a pool or on one of its workers. -/
def Holds (p : Pool J) (job : J) : Prop := job ∈ p.queue ∨ .running job ∈ p.workers

theorem mem_set {l : List (Worker J)} {i : Nat} {w : Worker J} {job : J}
    (h : .running job ∈ l.set i w) :
    .running job ∈ l ∨ w = .running job := by
  rcases List.mem_or_eq_of_mem_set h with h | h
  · exact .inl h
  · exact .inr h.symm

/-- A worker's step: the workers stay as many, and a job that the pool holds it held before. -/
theorem holds_of_moveWorker {p later : Pool J} {i : Nat} {move : WorkerMove}
    {records : List (JobRecord J)} (h : p.moveWorker? i move = some (later, records)) :
    later.workers.length = p.workers.length ∧ ∀ job, later.Holds job → p.Holds job := by
  obtain ⟨w, record, next, queue, -, hmoves, -, rfl⟩ := moves_of_moveWorker h
  refine ⟨List.length_set, ?_⟩
  rintro job (hqueue | hr)
  · cases hmoves with
    | receive first queue hq => exact .inl (hq ▸ List.mem_cons_of_mem _ hqueue)
    | _ => exact .inl hqueue
  · rcases mem_set hr with hr | rfl
    · exact .inr hr
    · -- Only a worker that takes a job comes to run one.
      cases hmoves with
      | receive first queue hq => exact .inl (hq ▸ List.mem_cons_self)

end Pool

namespace Executor

variable {J : Type} {e later : Executor J} {pool : Pool J}

theorem pools_of_submit {job : J} (hp : e.pools = [pool]) (h : e.submit job = .ok later) :
    later.pools = [{ pool with queue := pool.queue ++ [job] }] := by
  unfold submit at h
  rw [hp] at h
  split at h
  · rename_i last _ hlast
    obtain rfl : pool = last := by simpa using hlast
    split at h
    · cases h
    · obtain rfl := Except.ok.inj h
      rfl
  · cases h

theorem eq_of_work {worker : Nat} {move : WorkerMove} (hp : e.pools = [pool])
    (h : e.step (.work 0 worker move) = some later) :
    ∃ next records, pool.moveWorker? worker move = some (next, records) ∧
      later = { e with pools := [next], log := records ++ e.log } := by
  unfold step at h
  simp only [hp, List.getElem?_cons_zero] at h
  obtain ⟨⟨next, records⟩, hmove, rfl⟩ := Option.map_eq_some_iff.mp h
  exact ⟨next, records, hmove, rfl⟩

end Executor

/-! ## Staffed runs -/

namespace Course

variable {σ : Type}

/-- A run with one pool of `n` workers, which holds only groups that were submitted. Where a group
was refused, there are groups left to submit. -/
structure Staffed (n : Nat) (c : Course σ) : Prop where
  pool : ∃ pool, c.executor.pools = [pool] ∧ pool.workers.length = n ∧ ∀ g, pool.Holds g →
    g < c.submitted
  refused : c.rejected.isSome → c.submitted < c.groups.length

def IsDone (c : Course σ) (group : Nat) : Prop := ∃ g, c.groups[group]? = some g ∧ g.isDone = true

/-- A worker of a run comes to the end of its group only when that is done. -/
theorem isDone_of_hasFinished {c : Course σ} {pool : Pool Nat} (hp : c.executor.pools = [pool])
    {worker group : Nat} (hw : pool.workers[worker]? = some (.running group))
    (h : c.hasFinished worker = true) : c.IsDone group := by
  unfold hasFinished at h
  simp only [hp, hw, List.getElem?_cons_zero] at h
  cases hg : c.groups[group]? with
  | none =>
    rw [hg] at h
    cases h
  | some g =>
    rw [hg] at h
    exact ⟨g, hg, (Bool.and_eq_true_iff.mp h).1⟩

theorem isRunning_iff {c : Course σ} {pool : Pool Nat} (hp : c.executor.pools = [pool])
    (group : Nat) :
    c.isRunning group = true ↔ .running group ∈ pool.workers := by
  simp [isRunning, hp]

theorem Staffed.length_workers {n : Nat} {c : Course σ} {pool : Pool Nat} (hc : c.Staffed n)
    (hp : c.executor.pools = [pool]) :
    pool.workers.length = n := by
  obtain ⟨pool', hp', hn, -⟩ := hc.pool
  obtain rfl : pool = pool' := List.singleton_inj.mp (hp.symm.trans hp')
  exact hn

theorem Staffed.running_lt {n : Nat} {c : Course σ} (hc : c.Staffed n) {group : Nat}
    (h : c.isRunning group = true) : group < c.submitted := by
  obtain ⟨pool, hp, -, hheld⟩ := hc.pool
  exact hheld group (.inr ((isRunning_iff hp group).mp h))

theorem Staffed.of_submitNext {n : Nat} {c : Course σ} (hc : c.Staffed n) (h : c.maySubmit = true) :
    c.submitNext.Staffed n ∧ c.submitted ≤ c.submitNext.submitted := by
  obtain ⟨pool, hp, hn, hheld⟩ := hc.pool
  unfold maySubmit at h
  simp only [Bool.and_eq_true, Option.isNone_iff_eq_none, decide_eq_true_eq] at h
  obtain ⟨⟨hnone, hlt⟩, -⟩ := h
  unfold submitNext
  split
  · rename_i executor he
    -- The submitted group has the number that the count of submitted groups just went past.
    refine ⟨⟨⟨_, Executor.pools_of_submit hp he, hn, ?_⟩, ?_⟩, Nat.le_succ _⟩
    · rintro g (hq | hr)
      · rcases List.mem_append.mp hq with hq | hq
        · exact Nat.lt_succ_of_lt (hheld g (.inl hq))
        · rw [List.mem_singleton.mp hq]
          exact Nat.lt_succ_self _
      · exact Nat.lt_succ_of_lt (hheld g (.inr hr))
    · show c.rejected.isSome → _
      rw [hnone]
      intro hsome
      cases hsome
  · exact ⟨⟨⟨pool, hp, hn, hheld⟩, fun _ => hlt⟩, Nat.le_refl _⟩

/-- A staffed run stays staffed, and no submission is taken back. -/
theorem Staffed.of_step {n : Nat} {ledger : Ledger σ} {c later : Course σ} {acts : List Act}
    (hc : c.Staffed n) (h : Step ledger c acts later) :
    later.Staffed n ∧ c.submitted ≤ later.submitted := by
  cases h with
  | submit hmay => exact hc.of_submitNext hmay
  | work ha he =>
    obtain ⟨pool, hp, hn, hheld⟩ := hc.pool
    obtain ⟨next, records, hmove, rfl⟩ := Executor.eq_of_work hp he
    obtain ⟨hlength, hholds⟩ := Pool.holds_of_moveWorker hmove
    exact ⟨⟨⟨next, rfl, hlength.trans hn, fun g hg => hheld g (hholds g hg)⟩, hc.refused⟩,
      Nat.le_refl _⟩
  | send hg hcall hr =>
    refine ⟨⟨hc.pool, ?_⟩, Nat.le_refl _⟩
    rw [send_groups_length]
    exact hc.refused
  | act service hg hserves hr =>
    refine ⟨⟨hc.pool, ?_⟩, Nat.le_refl _⟩
    rw [goOn_groups_length]
    exact hc.refused
  | record hr => exact ⟨⟨hc.pool, hc.refused⟩, Nat.le_refl _⟩
  | wait clock => exact ⟨⟨hc.pool, hc.refused⟩, Nat.le_refl _⟩

theorem Runs.staffed {n : Nat} {ledger : Ledger σ} {c later : Course σ} {acts : List Act}
    (h : Runs ledger c acts later) (hc : c.Staffed n) : later.Staffed n :=
  h.preserves (fun head hstaffed => (hstaffed.of_step head).1) hc

theorem Runs.submitted_le {n : Nat} {ledger : Ledger σ} {c later : Course σ} {acts : List Act}
    (h : Runs ledger c acts later) (hc : c.Staffed n) : c.submitted ≤ later.submitted := by
  induction h with
  | start c => exact Nat.le_refl _
  | step head tail ih =>
    obtain ⟨hmid, hle⟩ := hc.of_step head
    exact Nat.le_trans hle (ih hmid)

theorem Runs.act_lt {n : Nat} {ledger : Ledger σ} {c later : Course σ} {acts : List Act}
    (h : Runs ledger c acts later) (hc : c.Staffed n) : ∀ a ∈ acts, a.group < later.submitted := by
  induction h with
  | start c => exact List.forall_mem_nil _
  | step head tail ih =>
    obtain ⟨hmid, hle⟩ := hc.of_step head
    intro a ha
    rcases List.mem_append.mp ha with ha | ha
    · have hnow := hc.running_lt (head.of_mem ha).1
      have hlater := tail.submitted_le hmid
      omega
    · exact ih hmid a ha

/-! ## One worker -/

/-- A group that is done stays done, and acts no more. -/
theorem Runs.done {ledger : Ledger σ} {c later : Course σ} {acts : List Act}
    (h : Runs ledger c acts later) {group : Nat} {g : GroupCourse σ}
    (hg : c.groups[group]? = some g) (hd : g.isDone = true) :
    Act.ofGroup group acts = [] ∧ ∃ g', later.groups[group]? = some g' ∧ g'.isDone = true := by
  obtain ⟨g', hg', hafter⟩ := h.after hg
  obtain ⟨t, ht⟩ := GroupCourse.isDone_iff.mp hd
  rw [ht] at hafter
  -- Nothing can follow what is done but itself, after no exchange.
  generalize hacts : Act.ofGroup group acts = xs at hafter
  generalize htodo : g'.todo = q at hafter
  cases hafter with
  | start => exact ⟨rfl, g', hg', GroupCourse.isDone_iff.mpr ⟨t, htodo⟩⟩

/-- What the only worker of a pool can do while it runs a job: the job ends, or panics. -/
theorem move_of_running {pool next : Pool Nat} {group worker : Nat} {move : WorkerMove}
    {records : List (JobRecord Nat)} (hw : pool.workers = [.running group])
    (h : pool.moveWorker? worker move = some (next, records)) :
    worker = 0 ∧ (move = .finish ∨ ∃ reason, move = .panic reason) := by
  unfold Pool.moveWorker? at h
  rw [hw] at h
  cases worker with
  | zero => cases move <;> simp_all
  | succ k => simp at h

/-- One worker runs one group at a time. -/
theorem Staffed.eq_of_running {c : Course σ} (hc : c.Staffed 1) {group other : Nat}
    (hgroup : c.isRunning group = true) (hother : c.isRunning other = true) : other = group := by
  obtain ⟨pool, hp, hn, -⟩ := hc.pool
  obtain ⟨w, hw⟩ := List.length_eq_one_iff.mp hn
  rw [isRunning_iff hp, hw, List.mem_singleton] at hgroup hother
  exact Worker.running.inj (hother.trans hgroup.symm)

/-- A step while the only worker runs a group: no other group acts, and the worker goes on with the
group unless that is done. -/
theorem Staffed.step_of_running {ledger : Ledger σ} {c later : Course σ} {acts : List Act}
    (hc : c.Staffed 1) (h : Step ledger c acts later) {group : Nat}
    (hrun : c.isRunning group = true) :
    (∀ a ∈ acts, a.group = group) ∧
      (later.isRunning group = true ∨ ∃ g, c.groups[group]? = some g ∧ g.isDone = true) := by
  obtain ⟨pool, hp, hn, -⟩ := hc.pool
  obtain ⟨w, hw⟩ := List.length_eq_one_iff.mp hn
  obtain rfl : .running group = w := by
    rwa [isRunning_iff hp, hw, List.mem_singleton] at hrun
  cases h with
  | submit hmay =>
    refine ⟨List.forall_mem_nil _, .inl ?_⟩
    unfold submitNext
    split
    · rename_i executor he
      rw [isRunning_iff (Executor.pools_of_submit hp he)]
      show _ ∈ pool.workers
      rw [hw]
      exact List.mem_singleton_self _
    · exact hrun
  | @work worker move executor ha he =>
    refine ⟨List.forall_mem_nil _, .inr ?_⟩
    obtain ⟨next, records, hmove, -⟩ := Executor.eq_of_work hp he
    -- A group does not panic, so the worker came to its end.
    obtain ⟨rfl, rfl | ⟨reason, rfl⟩⟩ := move_of_running hw hmove
    · exact isDone_of_hasFinished hp (by rw [hw]; rfl) ha
    · cases ha
  | send hg hcall hr => exact ⟨List.forall_mem_nil _, .inl hrun⟩
  | @act other effect next wakeAt service? service hg hserves hr =>
    refine ⟨?_, .inl hrun⟩
    intro a ha
    rw [List.mem_singleton.mp ha]
    exact hc.eq_of_running hrun hr
  | record hr => exact ⟨List.forall_mem_nil _, .inl hrun⟩
  | wait clock => exact ⟨List.forall_mem_nil _, .inl hrun⟩

/-- Where there is one worker, the group that it runs is the only one to act until it has nothing
left to do. -/
theorem Runs.alone {ledger : Ledger σ} {c later : Course σ} {acts : List Act}
    (h : Runs ledger c acts later) (hc : c.Staffed 1) {group : Nat}
    (hrun : c.isRunning group = true) {g' : GroupCourse σ} (hg' : later.groups[group]? = some g')
    (hundone : g'.isDone = false) : ∀ a ∈ acts, a.group = group := by
  induction h with
  | start c => exact List.forall_mem_nil _
  | @step c mid later made rest head tail ih =>
    obtain ⟨hmade, hgoes | ⟨g, hg, hdone⟩⟩ := hc.step_of_running head hrun
    · intro a ha
      rcases List.mem_append.mp ha with ha | ha
      · exact hmade a ha
      · exact ih (hc.of_step head).1 hgoes hg' a ha
    · -- The group was done here, and so it is at the end.
      obtain ⟨-, g'', hg'', hd⟩ := (Runs.step head tail).done hg hdone
      obtain rfl : g' = g'' := Option.some.inj (hg'.symm.trans hg'')
      rw [hundone] at hd
      cases hd

end Course

/-! ## Runs that begin -/

structure Bench.Begun {σ : Type} (b : Bench σ) (s : Session σ) (specs : List CallSpec)
    (mode : CallMode) (startedAt : Timestamp) (start : Course σ) : Prop where
  world : start.world = { scope := s.scope, ledger := s.ledger }
  groups : start.groups =
    (b.groupTasks s.ids (s.drawn + 1) specs).map fun t => { todo := t.runIsolated (b.binding mode) }
  statistics : start.statistics =
    RunStatistics.new ⟨s.ids s.drawn⟩ b.config.iterations specs.length
      b.config.concurrency startedAt
  staffed : start.Staffed (max b.config.concurrency 1)

theorem Bench.begun_of_begin {σ : Type} {b : Bench σ} {s : Session σ} {specs : List CallSpec}
    {mode : CallMode} {startedAt : Timestamp} {start : Course σ}
    (h : b.begin s specs mode startedAt = .ok start) :
    b.Begun s specs mode startedAt start := by
  obtain ⟨-, rfl⟩ := begin_eq_ok_iff.mp h
  refine ⟨rfl, rfl, rfl, ⟨⟨_, rfl, List.length_replicate, ?_⟩, nofun⟩⟩
  rintro g (hq | hr)
  · cases hq
  · cases List.eq_of_mem_replicate hr

theorem Bench.Begun.length_groups {σ : Type} {b : Bench σ} {s : Session σ} {specs : List CallSpec}
    {mode : CallMode} {startedAt : Timestamp} {start : Course σ}
    (hb : b.Begun s specs mode startedAt start) :
    start.groups.length = b.config.iterations := by
  rw [hb.groups, List.length_map, Bench.groupTasks, List.length_map, List.length_range]

/-! ### Given schedules -/

/-- A check of what a schedule leads to. -/
theorem exists_of_any {α : Type} {o : Option α} {P : α → Prop} [DecidablePred P]
    (h : o.any (fun a => decide (P a)) = true) :
    ∃ a, o = some a ∧ P a := by
  obtain ⟨a, ha, hp⟩ := (Option.any_eq_true _ _).mp h
  exact ⟨a, ha, of_decide_eq_true hp⟩

/-- A session in which nothing has been drawn and no file can be read. -/
def Bench.fresh : Session Nat where
  ledger := 0
  draws := { stream := fun _ => 0 }
  files := fun _ => .error .notFound
  ids := IdSource.counting

end LedgerBench
