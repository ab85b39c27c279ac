import LedgerBench.Proofs.Run.Workers
/-!
The queue of a run.

A run submits its groups in the order of their numbers and its workers take them in this order. What
is proved:
  1. `moves_of_admits`: the moves of workers that a run gives rise to.
  2. `InLine`: at any time there is a next group; the submitted groups from it on wait in the queue
     in order, and those before it are on a worker or done. Where the queue is long enough for all
     groups, none is ever refused.
  3. `Runs.in_turn`: where there is one worker, the groups act one after the other.
-/

namespace LedgerBench

open Program

/-- The places in which a worker of a run can be. -/
def Worker.Serves {J : Type} : Worker J → Prop
  | .checking | .waiting | .selecting | .running _ => True
  | .abandoning _ _ | .left => False

theorem Executor.submit_eq {J : Type} {e : Executor J} {pool : Pool J} (job : J)
    (hp : e.pools = [pool]) (hr : e.isRunning = true) (hroom : pool.queue.length < e.capacity) :
    e.submit job = .ok { e with pools := [{ pool with queue := pool.queue ++ [job] }],
                                log := .accepted job :: e.log } := by
  unfold Executor.submit
  rw [hp, hr]
  simp [Nat.not_le.mpr hroom]

namespace Course

variable {σ : Type} {ledger : Ledger σ} {c later : Course σ} {acts : List Act}
  {pool : Pool Nat} {next : Nat}

/-- Where a worker of a run goes from one place in its loop, with the queue it leaves. -/
inductive Admitted (c : Course σ) (pool : Pool Nat) :
    Worker Nat → Worker Nat → List Nat → Prop where
  | check : Admitted c pool .checking .waiting pool.queue
  | lock (h : pool.isLocked = false) : Admitted c pool .waiting .selecting pool.queue
  | receive (group : Nat) (queue : List Nat) (h : pool.queue = group :: queue) :
      Admitted c pool .selecting (.running group) queue
  | finish (group : Nat) (h : c.IsDone group) :
    Admitted c pool (.running group) .checking pool.queue

namespace Admitted

variable {w w' : Worker Nat} {queue : List Nat}

theorem serves (h : c.Admitted pool w w' queue) : w'.Serves := by
  cases h <;> trivial

/-- A worker leaves no group that is not done. -/
theorem isDone_of_running (h : c.Admitted pool w w' queue) {group : Nat} (hw : w = .running group) :
    c.IsDone group := by
  cases h with
  | finish other hdone => exact Worker.running.inj hw ▸ hdone
  | check => cases hw
  | lock hlock => cases hw
  | receive other queue hq => cases hw

end Admitted

theorem moves_of_admits {worker : Nat} {move : WorkerMove} {after : Pool Nat}
    {records : List (JobRecord Nat)} (hp : c.executor.pools = [pool]) (hs : pool.signal = false)
    (ha : c.admits worker move = true) (h : pool.moveWorker? worker move = some (after, records)) :
    ∃ w w' queue, pool.workers[worker]? = some w ∧ c.Admitted pool w w' queue ∧
      after = { pool with workers := pool.workers.set worker w', queue } := by
  cases hw : pool.workers[worker]? with
  | none => simp [Pool.moveWorker?, hw] at h
  | some w =>
    cases move with
    | check =>
      cases w <;> simp only [Pool.moveWorker?, hw, reduceCtorEq, Option.some.injEq,
        Prod.mk.injEq] at h
      have hstays : (if pool.signal = true then Worker.left else .waiting : Worker Nat) =
          .waiting := if_neg (by rw [hs]; decide)
      rw [hstays] at h
      exact ⟨_, _, _, rfl, .check, h.1.symm⟩
    | lock =>
      cases w <;> simp only [Pool.moveWorker?, hw, reduceCtorEq] at h
      split at h
      · cases h
      · rename_i hlock
        simp only [Option.some.injEq, Prod.mk.injEq] at h
        exact ⟨_, _, _, rfl, .lock (Bool.not_eq_true _ ▸ hlock), h.1.symm⟩
    | receive =>
      cases w <;> simp only [Pool.moveWorker?, hw, reduceCtorEq] at h
      split at h
      · rename_i group queue hq
        simp only [Option.some.injEq, Prod.mk.injEq] at h
        exact ⟨_, _, _, rfl, .receive group queue hq, h.1.symm⟩
      · cases h
    | finish =>
      cases w <;> simp only [Pool.moveWorker?, hw, reduceCtorEq, Option.some.injEq,
        Prod.mk.injEq] at h
      exact ⟨_, _, _, rfl, .finish _ (isDone_of_hasFinished hp hw ha), h.1.symm⟩
    | notice => exact absurd ha Bool.false_ne_true
    | leave => exact absurd ha Bool.false_ne_true
    | panic reason => exact absurd ha Bool.false_ne_true
    | abandon => exact absurd ha Bool.false_ne_true

/-! ## Groups in line -/

/-- The groups of a run at one moment: `next` is the first that no worker has taken yet. -/
structure InLine (c : Course σ) (pool : Pool Nat) (next : Nat) : Prop where
  pools : c.executor.pools = [pool]
  running : c.executor.isRunning = true
  staff : pool.workers.length = c.executor.concurrency
  room : c.groups.length ≤ c.executor.capacity
  accepted : c.rejected = none
  signal : pool.signal = false
  serving : ∀ w ∈ pool.workers, w.Serves
  submitted : c.submitted ≤ c.groups.length
  le : next ≤ c.submitted
  queue : pool.queue = List.range' next (c.submitted - next)
  begun : ∀ g, .running g ∈ pool.workers → g < next
  served : ∀ g < next, .running g ∈ pool.workers ∨ c.IsDone g

namespace InLine

/-- The next group to be submitted finds room. -/
theorem submitNext_eq (h : c.InLine pool next) (hmay : c.maySubmit = true) :
    c.submitted < c.groups.length ∧ c.submitNext = { c with
      executor := { c.executor with
        pools := [{ pool with queue := pool.queue ++ [c.submitted] }]
        log := .accepted c.submitted :: c.executor.log }
      submitted := c.submitted + 1
      nextSubmission := c.world.clock + c.interval.waited } := by
  simp only [maySubmit, Bool.and_eq_true, decide_eq_true_eq] at hmay
  obtain ⟨⟨-, hlt⟩, -⟩ := hmay
  have hroom : pool.queue.length < c.executor.capacity := by
    rw [h.queue, List.length_range']
    have := h.room
    omega
  refine ⟨hlt, ?_⟩
  unfold submitNext
  rw [Executor.submit_eq c.submitted h.pools h.running hroom]

theorem of_submitNext (h : c.InLine pool next) (hmay : c.maySubmit = true) :
    c.submitNext.InLine { pool with queue := pool.queue ++ [c.submitted] } next := by
  obtain ⟨hlt, heq⟩ := h.submitNext_eq hmay
  have hle := h.le
  have hqueue : pool.queue ++ [c.submitted] = List.range' next (c.submitted + 1 - next) := by
    have hlength : c.submitted + 1 - next = c.submitted - next + 1 := by omega
    rw [hlength, List.range'_1_concat, ← h.queue, Nat.add_sub_cancel' hle]
  rw [heq]
  exact { h with pools := rfl, submitted := hlt, le := Nat.le_succ_of_le hle, queue := hqueue }

/-- A worker that goes on leaves the others where they are. -/
theorem mem_set_of_mem {l : List (Worker Nat)} {i : Nat} {w w' x : Worker Nat} (hi : l[i]? = some w)
    (hx : x ∈ l) (hne : x ≠ w) :
    x ∈ l.set i w' := by
  obtain ⟨k, hk, rfl⟩ := List.getElem_of_mem hx
  have hik : i ≠ k := by
    rintro rfl
    rw [List.getElem?_eq_getElem hk] at hi
    exact hne (Option.some.inj hi)
  rw [List.mem_iff_getElem]
  exact ⟨k, by rwa [List.length_set], List.getElem_set_ne hik _⟩

/-- A worker goes on, and it may take the next group. -/
theorem of_move {w w' : Worker Nat} {queue : List Nat} {worker next' : Nat} (h : c.InLine pool next)
    (hw : pool.workers[worker]? = some w) (hmove : c.Admitted pool w w' queue)
    (hle : next' ≤ c.submitted) (hqueue : queue = List.range' next' (c.submitted - next'))
    (hbegun : ∀ g, g < next ∨ w' = .running g ↔ g < next') (log : List (JobRecord Nat)) :
    { c with executor := { c.executor with
        pools := [{ pool with workers := pool.workers.set worker w', queue }], log } }.InLine
      { pool with workers := pool.workers.set worker w', queue } next' where
  pools := rfl
  running := h.running
  staff := List.length_set.trans h.staff
  room := h.room
  accepted := h.accepted
  signal := h.signal
  serving x hx := by
    rcases List.mem_or_eq_of_mem_set hx with hx | rfl
    · exact h.serving x hx
    · exact hmove.serves
  submitted := h.submitted
  le := hle
  queue := hqueue
  begun g hg := by
    rcases Pool.mem_set hg with hg | hg
    · exact (hbegun g).mp (.inl (h.begun g hg))
    · exact (hbegun g).mp (.inr hg)
  served g hg := by
    rcases (hbegun g).mpr hg with hg | rfl
    · rcases h.served g hg with hr | hd
      · by_cases hsame : w = .running g
        · exact .inr (hmove.isDone_of_running hsame)
        · exact .inl (mem_set_of_mem hw hr (Ne.symm hsame))
      · exact .inr hd
    · obtain ⟨hlt, -⟩ := List.getElem?_eq_some_iff.mp hw
      exact .inl (List.mem_set hlt _)

theorem of_admitted {w w' : Worker Nat} {queue : List Nat} {worker : Nat} (h : c.InLine pool next)
    (hw : pool.workers[worker]? = some w) (hmove : c.Admitted pool w w' queue)
    (log : List (JobRecord Nat)) :
    ∃ next', { c with executor := { c.executor with
        pools := [{ pool with workers := pool.workers.set worker w', queue }], log } }.InLine
      { pool with workers := pool.workers.set worker w', queue } next' := by
  -- Only a worker that receives a group moves the line on.
  have stays : (∀ g, w' ≠ .running g) → ∀ g, g < next ∨ w' = .running g ↔ g < next :=
    fun hne g => ⟨fun hg => hg.resolve_right (hne g), .inl⟩
  cases hmove with
  | check => exact ⟨next, h.of_move hw .check h.le h.queue (stays nofun) log⟩
  | lock hlock => exact ⟨next, h.of_move hw (.lock hlock) h.le h.queue (stays nofun) log⟩
  | finish group hdone =>
    exact ⟨next, h.of_move hw (.finish group hdone) h.le h.queue (stays nofun) log⟩
  | receive group queue hq =>
    obtain ⟨more, hmore⟩ : ∃ more, c.submitted - next = more + 1 := by
      refine Nat.exists_eq_succ_of_ne_zero fun hzero => ?_
      have hnil := h.queue
      rw [hq, hzero] at hnil
      cases hnil
    have hline := h.queue
    rw [hq, hmore, List.range'_succ] at hline
    obtain ⟨rfl, rfl⟩ := List.cons.inj hline
    have hle : group + 1 ≤ c.submitted := by omega
    have hrest : c.submitted - (group + 1) = more := by omega
    refine ⟨group + 1, h.of_move hw (.receive group _ hq) hle (by rw [hrest]) (fun g => ?_) log⟩
    rw [Worker.running.injEq]
    omega

end InLine

theorem IsDone.of_step {group : Nat} (h : Step ledger c acts later) (hd : c.IsDone group) :
    later.IsDone group := by
  obtain ⟨g, hg, hdone⟩ := hd
  have hrun := Runs.step h (.start later)
  exact (hrun.done hg hdone).2

theorem InLine.of_step (h : c.InLine pool next) (hstep : Step ledger c acts later) :
    ∃ pool next, later.InLine pool next := by
  have hserved : ∀ g < next, .running g ∈ pool.workers ∨ later.IsDone g :=
    fun g hlt => (h.served g hlt).imp_right fun hd => hd.of_step hstep
  cases hstep with
  | submit hmay => exact ⟨_, _, h.of_submitNext hmay⟩
  | work ha he =>
    obtain ⟨after, records, hmove, rfl⟩ := Executor.eq_of_work h.pools he
    obtain ⟨w, w', queue, hw, hadmitted, rfl⟩ := moves_of_admits h.pools h.signal ha hmove
    obtain ⟨next', hnext⟩ := h.of_admitted hw hadmitted (records ++ c.executor.log)
    exact ⟨_, next', hnext⟩
  | send hg hcall hr =>
    exact ⟨pool, next, { h with
      room := by rw [send_groups_length]; exact h.room
      submitted := by rw [send_groups_length]; exact h.submitted
      served := hserved }⟩
  | act service hg hserves hr =>
    exact ⟨pool, next, { h with
      room := by rw [goOn_groups_length]; exact h.room
      submitted := by rw [goOn_groups_length]; exact h.submitted
      served := hserved }⟩
  | record hr => exact ⟨pool, next, { h with }⟩
  | wait clock => exact ⟨pool, next, { h with }⟩

theorem Runs.in_line (h : Runs ledger c acts later) (hc : ∃ pool next, c.InLine pool next) :
    ∃ pool next, later.InLine pool next :=
  h.preserves (P := fun d => ∃ pool next, d.InLine pool next)
    (fun head ⟨_, _, hline⟩ => hline.of_step head) hc

/-! ## One worker -/

/-- Where there is one worker, a group acts only when all groups before it are done. -/
theorem Runs.in_turn (h : Runs ledger c acts later) (hc : c.Staffed 1)
    (hline : ∃ pool next, c.InLine pool next) :
    acts.Pairwise fun a b => a.group ≤ b.group := by
  induction h with
  | start c => exact .nil
  | @step c mid later made rest head tail ih =>
    obtain ⟨pool, next, hpool⟩ := hline
    have hrest := ih (hc.of_step head).1 (hpool.of_step head)
    rcases head.silent_or_single with rfl | ⟨a, rfl⟩
    · exact hrest
    refine List.pairwise_cons.mpr ⟨fun b hb => Nat.le_of_not_lt fun hlt => ?_, hrest⟩
    -- A group before the one that acts is done, since the only worker runs the other.
    have hacts := (isRunning_iff hpool.pools a.group).mp (head.of_mem (List.mem_singleton_self a)).1
    rcases hpool.served b.group (Nat.lt_trans hlt (hpool.begun a.group hacts)) with hr | ⟨g, hg, hd⟩
    · obtain ⟨w, hw⟩ := List.length_eq_one_iff.mp (hc.length_workers hpool.pools)
      rw [hw, List.mem_singleton] at hr hacts
      exact Nat.ne_of_lt hlt (Worker.running.inj (hr.trans hacts.symm))
    · have hnone := ((Runs.step head tail).done hg hd).1
      have hmem : b.exchange ∈ Act.ofGroup b.group ([a] ++ rest) :=
        List.mem_map_of_mem (List.mem_filter.mpr ⟨List.mem_append_right _ hb, decide_eq_true rfl⟩)
      rw [hnone] at hmem
      cases hmem

end Course

/-! ## Runs that begin -/

namespace BenchPlan

variable {σ : Type} {p : BenchPlan σ} {b : Bench σ}

theorem build_of_checkConfig {ledger : Ledger σ} {handlers : HandlerChain} {policy : RetryPolicy}
    (hledger : p.ledger = some ledger) (hhandlers : p.handlers = some handlers)
    (hcheck : checkConfig p.config = .ok policy) :
    p.build = .ok { config := p.config, policy, ledger, handlers } := by
  unfold build
  rw [hledger, hhandlers]
  simp only [hcheck]

theorem checkConfig_of_build (h : p.build = .ok b) : checkConfig b.config = .ok b.policy := by
  unfold build at h
  split at h
  · cases h
  · cases h
  · split at h
    · rename_i policy hcheck
      obtain rfl := Except.ok.inj h
      exact hcheck
    · cases h

/-- A bench that was built can run: every limit is positive, and its queue has room for all
iterations. -/
theorem limits_of_build (h : p.build = .ok b) :
    (∀ limit : Limit, 0 < limit.value b.config) ∧ b.config.iterations ≤ b.config.queueCapacity := by
  have hcheck := checkConfig_of_build h
  unfold checkConfig at hcheck
  split at hcheck
  · cases hcheck
  · rename_i hnone
    split at hcheck
    · cases hcheck
    · rename_i hfits
      refine ⟨fun limit => Nat.pos_of_ne_zero fun hzero => ?_, Nat.le_of_not_lt hfits⟩
      have hmem : limit ∈ Limit.all := by cases limit <;> decide
      exact List.find?_eq_none.mp hnone limit hmem (decide_eq_true hzero)

end BenchPlan

namespace Bench

variable {σ : Type} {b : Bench σ} {s : Session σ} {specs : List CallSpec} {mode : CallMode}
  {startedAt : Timestamp} {start : Course σ}

theorem in_line_of_begin (hroom : b.config.iterations ≤ b.config.queueCapacity)
    (hb : b.begin s specs mode startedAt = .ok start) :
    ∃ pool next, start.InLine pool next := by
  have hlength := (begun_of_begin hb).length_groups
  obtain ⟨-, rfl⟩ := begin_eq_ok_iff.mp hb
  have hfits : b.config.iterations ≤ max b.config.queueCapacity 1 :=
    Nat.le_trans hroom (Nat.le_max_left _ _)
  refine ⟨_, 0, rfl, rfl, List.length_replicate, hlength ▸ hfits, rfl, rfl, ?_, Nat.zero_le _,
    Nat.le_refl 0, rfl, ?_, nofun⟩
  · intro w hw
    rw [List.eq_of_mem_replicate hw]
    trivial
  · intro g hg
    cases List.eq_of_mem_replicate hg

end Bench

end LedgerBench
