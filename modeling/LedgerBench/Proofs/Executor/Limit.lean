import LedgerBench.Proofs.Executor.Dropped
/-!
How many jobs are in flight.

A pool never runs more jobs than it has workers. But a stop takes the pool from its executor before
the workers have left, and from then on the executor can be started again, with as many workers
more. What is proved:
  1. `Balanced`: the jobs that the log says have begun and not ended are those on the workers of all
     pools.
  2. `Pool.Spent`: the pools that will never run a job again.
  3. `Executor.inFlight_le_of_orderly`: where pools are opened only when all earlier ones are spent,
     the limit holds in every state.
  4. `Executor.exists_overfull`: where an executor can be started while an earlier pool is not
     spent, some schedule goes past the limit.
  5. `Executor.inFlight_of_run`: both, and the bound that holds in any case.
-/

namespace LedgerBench

namespace Pool

variable {J : Type} {n capacity : Nat} {p q : Pool J}

/-- No job runs, and none of the queue will. -/
def Spent (p : Pool J) : Prop := p.running = [] ∧ p.Dry

/-- A pool that is not open and is spent stays so. -/
theorem Step.spent {event : PoolEvent J} (h : Step capacity p event q) (hopen : p.stage ≠ .open)
    (hp : p.Spent) :
    q.Spent := by
  obtain ⟨hdry, hbegun⟩ := h.dry hopen hp.2
  have hrunning := h.running_perm
  rw [hbegun, hp.1] at hrunning
  have hnil := List.nil_perm.mp hrunning
  rw [List.append_eq_nil_iff] at hnil
  exact ⟨hnil.2, hdry⟩

end Pool

namespace Executor

variable {J : Type} {e later : Executor J}

/-! ## Jobs in flight -/

/-- How many jobs have begun and not ended. -/
def inFlight (e : Executor J) : Nat :=
  (e.log.filterMap JobRecord.begun?).length - (e.log.filterMap JobRecord.ended?).length

/-- The jobs that run, pool by pool. -/
def running (e : Executor J) : List J := e.pools.flatMap Pool.running

/-- What has begun has ended or runs. -/
def Balanced (e : Executor J) : Prop :=
  (e.log.filterMap JobRecord.begun?).Perm (e.log.filterMap JobRecord.ended? ++ e.running)

theorem filterMap_toList {α β : Type} (f : α → Option β) (a : Option α) :
    a.toList.filterMap f = (a.bind f).toList := by
  cases a with
  | none => rfl
  | some a => cases h : f a <;> simp [h]

theorem Balanced.step {es : List (Nat × PoolEvent J)} (h : Step e es later) (he : e.Balanced) :
    later.Balanced := by
  cases h with
  | idle => exact he
  | start _ _ =>
    unfold Balanced running
    rw [List.flatMap_append, List.flatMap_singleton, Pool.running_fresh, List.append_nil]
    exact he
  | @pool index pool next event hp h =>
    have hpools := flatMap_set_perm hp h.running_perm
    unfold Balanced at he ⊢
    show ((event.record?.toList ++ e.log).filterMap JobRecord.begun?).Perm
      ((event.record?.toList ++ e.log).filterMap JobRecord.ended? ++
        (e.pools.set index next).flatMap Pool.running)
    rw [List.filterMap_append, List.filterMap_append, filterMap_toList, filterMap_toList]
    generalize (event.record?.bind JobRecord.begun?).toList = begun at hpools
    generalize (event.record?.bind JobRecord.ended?).toList = ended at hpools
    calc (begun ++ e.log.filterMap JobRecord.begun?).Perm
          (begun ++ (e.log.filterMap JobRecord.ended? ++ e.pools.flatMap Pool.running)) :=
            he.append_left _
      List.Perm _ (e.log.filterMap JobRecord.ended? ++ (begun ++ e.pools.flatMap Pool.running)) :=
          List.perm_append_comm_assoc ..
      List.Perm _ (e.log.filterMap JobRecord.ended? ++
        (ended ++ (e.pools.set index next).flatMap Pool.running)) :=
          hpools.append_left _
      List.Perm _ (ended ++ (e.log.filterMap JobRecord.ended? ++
        (e.pools.set index next).flatMap Pool.running)) :=
          List.perm_append_comm_assoc ..
      _ = ended ++ e.log.filterMap JobRecord.ended?
          ++ (e.pools.set index next).flatMap Pool.running := (List.append_assoc ..).symm

theorem Balanced.inFlight_eq (h : e.Balanced) : e.inFlight = e.running.length := by
  have hlen := h.length_eq
  rw [List.length_append] at hlen
  unfold inFlight
  omega

theorem balanced_of_run {concurrency capacity : Nat} {labels : List (Label J)}
    (h : (new concurrency capacity).run labels = some e) : e.Balanced :=
  (runs_of_run (sound_new concurrency capacity) h).preserves Balanced.step (.refl _)

/-! ## The limit -/

/-- Where all but one of some lists are empty, they hold no more than that one. -/
theorem length_flatMap_le_of_live {α β : Type} {g : α → List β} {n : Nat} {l : List α} (live : Nat)
    (hbound : ∀ a ∈ l, (g a).length ≤ n) (hempty : ∀ i a, l[i]? = some a → i ≠ live → g a = []) :
    (l.flatMap g).length ≤ n := by
  induction l generalizing live with
  | nil => exact Nat.zero_le n
  | cons a rest ih =>
    rw [List.flatMap_cons, List.length_append]
    have hrest : ∀ b ∈ rest, (g b).length ≤ n := fun b hb => hbound b (List.mem_cons_of_mem _ hb)
    cases live with
    | zero =>
      have hnil : rest.flatMap g = [] := by
        rw [List.flatMap_eq_nil_iff]
        intro b hb
        obtain ⟨i, hi⟩ := List.mem_iff_getElem?.mp hb
        exact hempty (i + 1) b hi (Nat.succ_ne_zero i)
      rw [hnil]
      exact hbound a List.mem_cons_self
    | succ live =>
      have hnil : g a = [] := hempty 0 a rfl (Nat.zero_ne_add_one live)
      rw [hnil, List.length_nil, Nat.zero_add]
      exact ih live hrest fun i b hi hne => hempty (i + 1) b hi (fun h => hne (Nat.succ.inj h))

/-- Every pool but one is closed for jobs and spent. -/
def OneLive (e : Executor J) : Prop :=
  ∃ live : Nat, ∀ (index : Nat) (pool : Pool J), e.pools[index]? = some pool → index ≠ live →
      pool.stage ≠ .open ∧ pool.Spent

theorem OneLive.running_length_le (h : e.OneLive) (he : e.Sound) :
    e.running.length ≤ e.concurrency := by
  obtain ⟨live, hlive⟩ := h
  refine length_flatMap_le_of_live live (fun pool hpool => ?_) fun index pool hp hne =>
    (hlive index pool hp hne).2.1
  rw [← (he.pools pool hpool).workers]
  exact pool.running_length_le

/-- A schedule that opens a pool only when all earlier ones are spent. -/
def Orderly (e : Executor J) : List (Label J) → Prop
  | [] => True
  | label :: rest => ∀ mid, e.step label = some mid →
    (e.pools.length < mid.pools.length → ∀ pool ∈ e.pools, pool.Spent) ∧ mid.Orderly rest

theorem Orderly.cons {label : Label J} {rest : List (Label J)} (h : e.step label = some later)
    (hspent : e.pools.length < later.pools.length → ∀ pool ∈ e.pools, pool.Spent)
    (hrest : later.Orderly rest) :
    e.Orderly (label :: rest) := by
  intro mid hmid
  obtain rfl : later = mid := Option.some.inj (h.symm.trans hmid)
  exact ⟨hspent, hrest⟩

theorem OneLive.step {es : List (Nat × PoolEvent J)} (h : Step e es later) (he : e.Sound)
    (hspent : e.pools.length < later.pools.length → ∀ pool ∈ e.pools, pool.Spent)
    (hlive : e.OneLive) :
    later.OneLive := by
  cases h with
  | idle => exact hlive
  | start h _ =>
    -- The new pool is the one that may be live.
    have hall := hspent (by simp)
    refine ⟨e.pools.length, fun index pool hp hne => ?_⟩
    have hold : e.pools[index]? = some pool := by
      rcases Nat.lt_or_gt_of_ne hne with hlt | hgt
      · rwa [List.getElem?_append_left hlt] at hp
      · rw [List.getElem?_eq_none (by simp; omega)] at hp
        cases hp
    have hmem := List.mem_of_getElem? hold
    exact ⟨he.not_open h pool hmem, hall pool hmem⟩
  | @pool i pool next event hp h =>
    obtain ⟨live, hlive⟩ := hlive
    refine ⟨live, fun index other hother hne => ?_⟩
    have hget : (e.pools.set i next)[index]? = some other := hother
    by_cases hi : i = index
    · subst hi
      have hlt := (List.getElem?_eq_some_iff.mp hp).1
      obtain rfl : next = other := Option.some.inj ((List.getElem?_set_self hlt).symm.trans hget)
      obtain ⟨hopen, hpool⟩ := hlive i pool hp hne
      exact ⟨fun hnext => hopen (h.open_of_open hnext), h.spent hopen hpool⟩
    · rw [List.getElem?_set_ne hi] at hget
      exact hlive index other hget hne

theorem OneLive.run {labels : List (Label J)} (he : e.Sound) (hlive : e.OneLive)
    (horderly : e.Orderly labels) (h : e.run labels = some later) : later.OneLive := by
  induction labels generalizing e with
  | nil =>
    obtain rfl := Option.some.inj h
    exact hlive
  | cons label rest ih =>
    rw [run_cons] at h
    obtain ⟨mid, hstep, hrest⟩ := Option.bind_eq_some_iff.mp h
    obtain ⟨hspent, hmid⟩ := horderly mid hstep
    have hcases := step_cases he hstep
    exact ih (he.step hcases) (hlive.step hcases he hspent) hmid hrest

theorem inFlight_le_of_orderly {concurrency capacity : Nat} {labels : List (Label J)}
    (h : (new concurrency capacity).run labels = some e)
    (horderly : (new concurrency capacity).Orderly labels) :
    e.inFlight ≤ e.concurrency := by
  have hlive : e.OneLive :=
    OneLive.run (sound_new concurrency capacity) ⟨0,
      fun index pool hp => by simp [new] at hp⟩ horderly h
  rw [(balanced_of_run h).inFlight_eq]
  exact hlive.running_length_le (sound_of_run h)

/-! ## Past the limit -/

/-- A pool whose first workers run a job each. -/
def busy (workers count : Nat) (job : J) : Pool J where
  workers := List.replicate count (.running job) ++ List.replicate (workers - count) .checking

theorem busy_taken {n k : Nat} (hk : k < n) (job : J) :
    (busy n k job).taken k job [] = busy n (k + 1) job := by
  have hset : (List.replicate k (Worker.running job) ++ List.replicate (n - k) Worker.checking).set
      k (.running job)
      = List.replicate (k + 1) (Worker.running job) ++ List.replicate
        (n - (k + 1)) Worker.checking := by
    rw [List.set_append_right _ _ (by simp), List.length_replicate, Nat.sub_self,
      show n - k = n - (k + 1) + 1 by omega, List.replicate_succ, List.set_cons_zero,
      List.replicate_succ',
      List.append_assoc, List.singleton_append]
  simp only [Pool.taken, Pool.put, busy, hset]

theorem getElem?_busy {n k : Nat} (hk : k < n) (job : J) :
    (busy n k job).workers[k]? = some .checking := by
  show (List.replicate k (Worker.running job) ++ List.replicate (n - k) Worker.checking)[k]? =
    some .checking
  rw [List.getElem?_append_right (by simp), List.length_replicate, Nat.sub_self,
    List.getElem?_replicate, if_pos (by omega)]

theorem isLocked_busy (n k : Nat) (job : J) : (busy n k job).isLocked = false := by
  rw [Bool.eq_false_iff, ne_eq, Pool.isLocked_iff]
  show .selecting ∉ List.replicate k (Worker.running job) ++ List.replicate (n - k) Worker.checking
  simp

theorem running_busy (n k : Nat) (job : J) : (busy n k job).running = List.replicate k job := by
  show (List.replicate k (Worker.running job) ++ List.replicate (n - k) Worker.checking).flatMap
    Worker.runs = _
  have hrunning :
      (List.replicate k (Worker.running job)).flatMap Worker.runs = List.replicate k job := by
    induction k with
    | zero => rfl
    | succ k ih => rw [List.replicate_succ, List.flatMap_cons, ih]; rfl
  have hchecking : (List.replicate (n - k) (Worker.checking : Worker J)).flatMap Worker.runs = [] :=
    flatMap_of_forall_eq rfl fun _ => List.eq_of_mem_replicate
  rw [List.flatMap_append, hrunning, hchecking, List.append_nil]

/-- Submitting a job to an executor whose open pool has nothing queued. -/
theorem submit_of_empty {earlier : List (Pool J)} {pool : Pool J} (hrunning : e.isRunning = true)
    (hp : e.pools = earlier ++ [pool]) (hq : pool.queue = [])
    (hcapacity : 0 < e.capacity) (job : J) :
    e.submit job = .ok { e with
      pools := earlier ++ [{ pool with queue := [job] }]
      log := .accepted job :: e.log } := by
  have hroom : ¬ e.capacity ≤ pool.queue.length := by
    rw [hq]
    exact Nat.not_le_of_gt hcapacity
  unfold submit
  rw [hrunning, hp, List.getLast?_concat, List.dropLast_concat]
  simp only [if_neg hroom]
  rw [hq, List.nil_append]

/-- Submitting a job and having one worker begin it. -/
def occupy (index worker : Nat) (job : J) : List (Label J) :=
  .submit job :: (Worker.checking : Worker J).toNextJob.map (.work index worker)

/-- One more worker of the newest pool begins a job. -/
theorem run_busy {earlier : List (Pool J)} {k : Nat} {job : J} (hrunning : e.isRunning = true)
    (hcapacity : 0 < e.capacity) (hk : k < e.concurrency)
    (hp : e.pools = earlier ++ [busy e.concurrency k job]) :
    ∃ log, e.run (occupy earlier.length k job)
      = some { e with pools := earlier ++ [busy e.concurrency (k + 1) job], log } := by
  have hsubmit := submit_of_empty hrunning hp rfl hcapacity job
  have hworks : Pool.works { busy e.concurrency k job with queue := [job] } k
      (Worker.checking : Worker J).toNextJob
      = some (busy e.concurrency (k + 1) job) := by
    rw [← busy_taken hk]
    exact Pool.works_toNextJob (getElem?_busy hk job) rfl (by simp)
      (.inl (isLocked_busy _ _ job)) (.inl rfl)
  have hget : (earlier ++ [{ busy e.concurrency k job with queue := [job] }])[earlier.length]?
      = some { busy e.concurrency k job with queue := [job] } := List.getElem?_concat_length
  obtain ⟨log, hlog⟩ := run_works (e := { e with
      pools := earlier ++ [{ busy e.concurrency k job with queue := [job] }]
      log := .accepted job :: e.log }) hget hworks
  refine ⟨log, ?_⟩
  rw [occupy, run_cons, step, hsubmit, Option.bind_some, hlog]
  simp

/-- All workers of the newest pool can be kept busy. -/
theorem exists_busy {earlier : List (Pool J)} (job : J) (hrunning : e.isRunning = true)
    (hcapacity : 0 < e.capacity) (hp : e.pools = earlier ++ [.fresh e.concurrency]) (count : Nat)
    (hcount : count ≤ e.concurrency) :
    ∃ labels log, (∀ drain, .stop drain ∉ labels) ∧
      e.run labels = some { e with pools := earlier ++ [busy e.concurrency count job], log } := by
  induction count with
  | zero =>
    have hfresh : busy e.concurrency 0 job = .fresh e.concurrency := by simp [busy, Pool.fresh]
    refine ⟨[], e.log, fun drain => List.not_mem_nil, ?_⟩
    rw [hfresh, ← hp]
    rfl
  | succ count ih =>
    obtain ⟨labels, log, hlabels, hrun⟩ := ih (Nat.le_of_succ_le hcount)
    have hnext : ∃ last, run { e with pools := earlier ++ [busy e.concurrency count job], log }
        (occupy earlier.length count job)
          = some { e with pools := earlier ++ [busy e.concurrency (count + 1) job], log := last } :=
      run_busy (e := { e with pools := earlier ++ [busy e.concurrency count job], log }) hrunning
        hcapacity hcount rfl
    obtain ⟨last, hlast⟩ := hnext
    refine ⟨labels ++ occupy earlier.length count job, last, fun drain hmem => ?_, ?_⟩
    · rcases List.mem_append.mp hmem with hmem | hmem
      · exact hlabels drain hmem
      · simp [occupy] at hmem
    · rw [run_append, hrun, Option.bind_some, hlast]

/-- A pool that is not spent runs a job, or its workers can begin one. -/
theorem exists_running {index : Nat} {pool : Pool J} (he : e.Sound) (hn : 0 < e.concurrency)
    (hp : e.pools[index]? = some pool) (hspent : ¬ pool.Spent) :
    ∃ labels next log, (∀ drain, .stop drain ∉ labels) ∧ (∃ job, job ∈ next.running) ∧
      e.run labels = some { e with pools := e.pools.set index next, log } := by
  cases hrunning : pool.running with
  | cons job rest =>
    obtain ⟨hlt, rfl⟩ := List.getElem?_eq_some_iff.mp hp
    refine ⟨[], e.pools[index], e.log, fun drain => List.not_mem_nil, ⟨job, ?_⟩, ?_⟩
    · rw [hrunning]
      exact List.mem_cons_self
    · rw [List.set_getElem_self]
      rfl
  | nil =>
    have hwet : ¬ pool.Dry := fun hdry => hspent ⟨hrunning, hdry⟩
    have hsound := he.pools pool (List.mem_of_getElem? hp)
    obtain ⟨i, moves, job, queue, -, hi, hworks⟩ := Pool.works_of_not_dry hsound hn hwet
    obtain ⟨log, hrun⟩ := run_works hp hworks
    refine ⟨_, pool.taken i job queue, log, fun drain hmem => by simp at hmem, ⟨job, ?_⟩, hrun⟩
    have hlt : i < pool.workers.length := by rw [hsound.workers]; exact hi
    have hmem : .running job ∈ (pool.taken i job queue).workers :=
      List.mem_of_getElem? (List.getElem?_set_self hlt)
    exact List.mem_flatMap.mpr ⟨_, hmem, List.mem_singleton.mpr rfl⟩

/-- Where an executor that is not running has a pool that is not spent, starting it can take it past
its limit. -/
theorem exists_overfull (he : e.Sound) (hbalanced : e.Balanced) (hn : 0 < e.concurrency)
    (hcapacity : 0 < e.capacity) (hrunning : e.isRunning = false)
    (hspent : ∃ pool ∈ e.pools, ¬ pool.Spent) :
    ∃ labels later, (∀ drain, .stop drain ∉ labels) ∧ e.run labels = some later ∧
      later.concurrency < later.inFlight := by
  obtain ⟨pool, hmem, hpool⟩ := hspent
  obtain ⟨index, hp⟩ := List.mem_iff_getElem?.mp hmem
  have hstartable : e.Startable := he.startable (List.ne_nil_of_mem hmem)
  obtain ⟨begin, next, log, hbegin, ⟨job, hjob⟩, hrun⟩ := exists_running he hn hp hpool
  -- Then the executor is started, and every worker of the new pool is given a job.
  have hstart : step { e with pools := e.pools.set index next, log } .start
      = some { e with pools := e.pools.set index next ++ [.fresh e.concurrency],
                      isRunning := true, log } := by
    simp only [step, start, hrunning, Bool.false_eq_true, if_false,
      if_neg (Nat.not_lt.mpr hstartable.1), if_neg (Nat.not_lt.mpr hstartable.2)]
    rfl
  obtain ⟨fill, full, hfill, hfull⟩ := exists_busy
    (e := { e with pools := e.pools.set index next ++ [.fresh e.concurrency],
                   isRunning := true, log })
    job rfl hcapacity rfl e.concurrency (Nat.le_refl _)
  have hall : e.run (begin ++ .start :: fill) = some { e with
      pools := e.pools.set index next ++ [busy e.concurrency e.concurrency job], isRunning :=
        true, log := full } := by
    rw [run_append, hrun, Option.bind_some, run_cons, hstart, Option.bind_some, hfull]
  refine ⟨_, _, fun drain hmem => ?_, hall, ?_⟩
  · rcases List.mem_append.mp hmem with hmem | hmem
    · exact hbegin drain hmem
    · rcases List.mem_cons.mp hmem with hmem | hmem
      · cases hmem
      · exact hfill drain hmem
  · rw [((runs_of_run he hall).preserves Balanced.step hbalanced).inFlight_eq]
    show e.concurrency < ((e.pools.set index next ++ [busy e.concurrency e.concurrency job]).flatMap
      Pool.running).length
    have hone : 0 < ((e.pools.set index next).flatMap Pool.running).length := by
      have hlt : index < e.pools.length := (List.getElem?_eq_some_iff.mp hp).1
      have hnext : next ∈ e.pools.set index next :=
        List.mem_of_getElem? (List.getElem?_set_self hlt)
      exact List.length_pos_of_mem (List.mem_flatMap.mpr ⟨next, hnext, hjob⟩)
    rw [List.flatMap_append, List.flatMap_singleton, running_busy, List.length_append,
      List.length_replicate]
    omega

/-- The jobs in flight are those on the workers of all pools, of which no pool has more than the
limit. The limit holds in every state of a schedule that opens pools only when all earlier ones are
spent; in any state where the executor could be started too early, some schedule that starts it goes
past the limit. -/
theorem inFlight_of_run {concurrency capacity : Nat} {labels : List (Label J)}
    (h : (new concurrency capacity).run labels = some e) :
    e.inFlight = e.running.length ∧ (∀ pool ∈ e.pools, pool.running.length ≤ e.concurrency) ∧
    ((new concurrency capacity).Orderly labels → e.inFlight ≤ e.concurrency) ∧
    (e.isRunning = false → (∃ pool ∈ e.pools, ¬ pool.Spent) →
      ∃ rest later, (∀ drain, .stop drain ∉ rest) ∧ e.run rest = some later ∧
        later.concurrency < later.inFlight) := by
  have he : e.Sound := sound_of_run h
  have hbalanced : e.Balanced := balanced_of_run h
  obtain ⟨hn, hroom⟩ := limits_pos_of_run h
  refine ⟨hbalanced.inFlight_eq, fun pool hpool => ?_, inFlight_le_of_orderly h,
    exists_overfull he hbalanced hn hroom⟩
  rw [← (he.pools pool hpool).workers]
  exact pool.running_length_le

/-- One worker, which is running a job when the executor is stopped. -/
def stopLabels : List (Label Nat) :=
  [.start, .submit 0, .work 0 0 .check, .work 0 0 .lock, .work 0 0 .receive, .stop true]

theorem inFlight_of_run_stopped : ∃ e, (new 1 1).run stopLabels = some e ∧ e.isRunning = false ∧
    e.inFlight = 1 ∧ (new 1 1).Orderly stopLabels ∧ e.inFlight ≤ e.concurrency ∧
    ∃ rest later, (∀ drain, .stop drain ∉ rest) ∧ e.run rest = some later ∧
      later.concurrency < later.inFlight := by
  have horderly : (new 1 1).Orderly stopLabels :=
    .cons rfl (fun _ _ hpool => absurd hpool List.not_mem_nil) <|
      .cons rfl (fun h => absurd h (by decide)) <| .cons rfl (fun h => absurd h (by decide)) <|
      .cons rfl (fun h => absurd h (by decide)) <| .cons rfl (fun h => absurd h (by decide)) <|
      .cons rfl (fun h => absurd h (by decide)) trivial
  obtain ⟨-, -, hlimit, hover⟩ := @inFlight_of_run Nat _ 1 1 stopLabels rfl
  exact ⟨_, rfl, rfl, rfl, horderly, hlimit horderly,
    hover rfl ⟨_, List.mem_cons_self, fun hspent => List.cons_ne_nil _ _ hspent.1⟩⟩

/-- Started again while the stop still waits for the worker, the executor runs two jobs with a limit
of one. -/
theorem overfull_of_restart : ∃ e,
    (new 1 1).run (stopLabels ++ [.advanceStop 0, .start, .submit 1, .work 1 0 .check,
      .work 1 0 .lock,
      .work 1 0 .receive]) = some e ∧ e.concurrency = 1 ∧ e.inFlight = 2 :=
  ⟨_, rfl, rfl, rfl⟩

end Executor

end LedgerBench
