import LedgerBench.Proofs.Executor.History
/-!
Pools that have been signalled to drop their queues.

A worker looks for the signal before it asks for the lock of the queue, and not again before it
takes a job. So a worker that was on its way to a job when the signal came may still take one. What
is proved:
  1. `Pool.Dry`: the pools that begin no job of their queues any more. They stay so
     (`Pool.Runs.dry`), and in any other pool a worker can begin the first job of the queue
     (`Pool.works_of_not_dry`).
  2. `Pool.Runs.worker`: after the signal a worker begins at most one job, and none unless it was on
     its way to one, and it makes few moves.
  3. `Pool.exists_move`: the workers of a signalled pool, whose moves are numbered, come to rest
     only when all have left.
  4. `Executor.dropped_of_signal`: all of this for every executor and every schedule.
-/

namespace LedgerBench

namespace Worker

variable {J : Type}

/-- On the way to a job, past the last look for the signal. -/
def isTaking : Worker J → Bool
  | .waiting | .selecting => true
  | _ => false

/-- How many moves a worker that was told to leave can still make. -/
def movesLeft : Worker J → Nat
  | .waiting => 5
  | .selecting => 4
  | .running _ => 3
  | .abandoning _ _ => 2
  | .checking => 1
  | .left => 0

/-- The moves that take a worker to its next job. -/
def toNextJob : Worker J → List WorkerMove
  | .waiting => [.lock, .receive]
  | .selecting => [.receive]
  | .running _ => [.finish, .check, .lock, .receive]
  | .abandoning _ _ => [.abandon, .check, .lock, .receive]
  | .checking => [.check, .lock, .receive]
  | .left => []

end Worker

namespace Pool

variable {J : Type} {n capacity : Nat} {p q : Pool J}

/-! ## Pools that begin nothing more -/

/-- Nothing is queued, or every worker will see the signal before it could take a job. -/
def Dry (p : Pool J) : Prop := p.queue = [] ∨ p.signal = true ∧ ∀ w ∈ p.workers, w.isTaking = false

theorem Moves.dry {i : Nat} {w next : Worker J} {record : Option (JobRecord J)} {queue : List J}
    (hw : p.workers[i]? = some w) (h : p.Moves w record next queue) (hp : p.Dry) :
    ({ p with workers := p.workers.set i next, queue } : Pool J).Dry ∧
      record.bind JobRecord.begun? = none := by
  -- Where jobs are queued, the worker that moves is not on its way to one, and does not set out for
  -- one.
  have hmoves : ∀ {next : Worker J}, next.isTaking = false → (∀ w ∈ p.workers, w.isTaking = false) →
      ∀ w ∈ p.workers.set i next, w.isTaking = false := by
    intro next hnext hall w hw
    rcases List.mem_or_eq_of_mem_set hw with hw | rfl
    · exact hall w hw
    · exact hnext
  rcases hp with hq | ⟨hs, hall⟩
  · cases h with
    | receive job queue h =>
      rw [hq] at h
      cases h
    | _ => exact ⟨.inl hq, rfl⟩
  · have hnot := hall w (List.mem_of_getElem? hw)
    cases h with
    | told h => exact ⟨.inr ⟨hs, hmoves rfl hall⟩, rfl⟩
    | check h =>
      rw [hs] at h
      cases h
    | lock h => cases hnot
    | notice h => cases hnot
    | receive job queue h => cases hnot
    | leave hq hc => cases hnot
    | finish job => exact ⟨.inr ⟨hs, hmoves rfl hall⟩, rfl⟩
    | panic job reason => exact ⟨.inr ⟨hs, hmoves rfl hall⟩, rfl⟩
    | abandon job reason => exact ⟨.inr ⟨hs, hmoves rfl hall⟩, rfl⟩

theorem Step.dry {event : PoolEvent J} (h : Step capacity p event q) (hopen : p.stage ≠ .open)
    (hp : p.Dry) :
    q.Dry ∧ event.record?.bind JobRecord.begun? = none := by
  cases h with
  | accept job h _ => exact absurd h hopen
  | take drain h => exact absurd h hopen
  | signal h => exact ⟨hp.imp_right fun hall => ⟨rfl, hall.2⟩, rfl⟩
  | close h => exact ⟨hp, rfl⟩
  | conclude h hleft => exact ⟨hp, rfl⟩
  | work i hw h => exact h.dry hw hp

/-- A pool that is not open and begins nothing stays so. -/
theorem Runs.dry {history : List (PoolEvent J)} (h : Runs capacity p history q)
    (hopen : p.stage ≠ .open) (hp : p.Dry) : q.Dry ∧ recorded JobRecord.begun? history = [] := by
  induction h with
  | start => exact ⟨hp, rfl⟩
  | step head _ ih =>
    obtain ⟨hmid, hevent⟩ := head.dry hopen hp
    obtain ⟨hq, hrest⟩ := ih (fun hmidopen => hopen (head.open_of_open hmidopen)) hmid
    refine ⟨hq, ?_⟩
    rw [recorded_cons, hevent, hrest]
    rfl

/-- Nothing is accepted by a pool that is not open. -/
theorem Runs.accepted_eq_nil {history : List (PoolEvent J)} (h : Runs capacity p history q)
    (hopen : p.stage ≠ .open) :
    recorded JobRecord.accepted? history = [] := by
  induction h with
  | start => rfl
  | @step p q r event history head _ ih =>
    have hevent : event.record?.bind JobRecord.accepted? = none := by
      cases head with
      | accept job h _ => exact absurd h hopen
      | work i hw h => cases h <;> rfl
      | _ => rfl
    rw [recorded_cons, hevent, ih fun hq => hopen (head.open_of_open hq)]
    rfl

/-! ## Workers on their way to a job -/

/-- Some moves of one worker. -/
def works (p : Pool J) (i : Nat) : List WorkerMove → Option (Pool J)
  | [] => some p
  | move :: rest => (p.moveWorker? i move).bind fun (q, _) => q.works i rest

theorem works_cons {i : Nat} {move : WorkerMove} {records : List (JobRecord J)}
    (h : p.moveWorker? i move = some (q, records)) (rest : List WorkerMove) :
    p.works i (move :: rest) = q.works i rest := by
  rw [works, h, Option.bind_some]

section NextJob

variable {i : Nat} {job : J} {queue : List J}

/-- A pool with a worker at another place in its loop. -/
def put (p : Pool J) (i : Nat) (w : Worker J) : Pool J := { p with workers := p.workers.set i w }

theorem put_worker {w next : Worker J} (hw : p.workers[i]? = some w) :
    (p.put i next).workers[i]? = some next :=
  List.getElem?_set_self (List.getElem?_eq_some_iff.mp hw).1

theorem isLocked_put {w : Worker J} (hp : p.isLocked = false) (hw : w ≠ .selecting) :
    (p.put i w).isLocked = false := by
  rw [Bool.eq_false_iff] at hp ⊢
  intro hlocked
  rcases List.mem_or_eq_of_mem_set (isLocked_iff.mp hlocked) with hmem | heq
  · exact hp (isLocked_iff.mpr hmem)
  · exact hw heq.symm

/-- A pool once a worker has taken the first job of the queue. -/
def taken (p : Pool J) (i : Nat) (job : J) (queue : List J) : Pool J :=
  { p.put i (.running job) with queue }

/-- Where a worker stood before makes no difference to where it is once it has taken a job. -/
theorem taken_put (w : Worker J) : (p.put i w).taken i job queue = p.taken i job queue := by
  unfold taken put
  rw [List.set_set]

theorem works_selecting (hw : p.workers[i]? = some .selecting) (hq : p.queue = job :: queue) :
    p.works i [.receive] = some (p.taken i job queue) := by
  simp [works, moveWorker?, hw, hq, taken, put]

theorem works_waiting (hw : p.workers[i]? = some .waiting) (hq : p.queue = job :: queue)
    (hl : p.isLocked = false) :
    p.works i [.lock, .receive] = some (p.taken i job queue) := by
  have hlock : p.moveWorker? i .lock = some (p.put i .selecting, []) := by
    simp [moveWorker?, hw, hl, put]
  calc p.works i [.lock, .receive] = (p.put i .selecting).works i [.receive] := works_cons hlock _
    _ = some ((p.put i .selecting).taken i job queue) := works_selecting (put_worker hw) hq
    _ = some (p.taken i job queue) := by rw [taken_put]

theorem works_checking (hw : p.workers[i]? = some .checking) (hq : p.queue = job :: queue)
    (hl : p.isLocked = false) (hs : p.signal = false) :
    p.works i [.check, .lock, .receive] = some (p.taken i job queue) := by
  have hcheck : p.moveWorker? i .check = some (p.put i .waiting, []) := by
    simp [moveWorker?, hw, hs, put]
  have hunlocked : (p.put i .waiting).isLocked = false := isLocked_put hl (by simp)
  calc p.works i [.check, .lock, .receive]
      = (p.put i .waiting).works i [.lock, .receive] := works_cons hcheck _
    _ = some ((p.put i .waiting).taken i job queue) := works_waiting (put_worker hw) hq hunlocked
    _ = some (p.taken i job queue) := by rw [taken_put]

/-- A worker that comes back from a job takes the next. -/
theorem works_back {w : Worker J} {move : WorkerMove} {records : List (JobRecord J)}
    (hw : p.workers[i]? = some w) (hmove : p.moveWorker? i move = some (p.put i .checking, records))
    (hq : p.queue = job :: queue) (hl : p.isLocked = false) (hs : p.signal = false) :
    p.works i [move, .check, .lock, .receive] = some (p.taken i job queue) := by
  have hunlocked : (p.put i .checking).isLocked = false := isLocked_put hl (by simp)
  calc p.works i [move, .check, .lock, .receive]
      = (p.put i .checking).works i [.check, .lock, .receive] := works_cons hmove _
    _ = some ((p.put i .checking).taken i job queue) :=
      works_checking (put_worker hw) hq hunlocked hs
    _ = some (p.taken i job queue) := by rw [taken_put]

/-- A worker that nobody keeps from the lock and that the signal does not stop takes the first job
of the queue. -/
theorem works_toNextJob {w : Worker J} (hw : p.workers[i]? = some w) (hq : p.queue = job :: queue)
    (hleft : w ≠ .left) (hl : p.isLocked = false ∨ w = .selecting)
    (hs : p.signal = false ∨ w.isTaking = true) :
    p.works i w.toNextJob = some (p.taken i job queue) := by
  cases w with
  | left => exact absurd rfl hleft
  | selecting => exact works_selecting hw hq
  | waiting => exact works_waiting hw hq (hl.resolve_right (by simp))
  | checking =>
    exact works_checking hw hq (hl.resolve_right (by simp))
      (hs.resolve_right (by simp [Worker.isTaking]))
  | running busy =>
    have hfinish : p.moveWorker? i .finish = some (p.put i .checking, [.returned busy]) := by
      simp [moveWorker?, hw, put]
    exact works_back hw hfinish hq (hl.resolve_right (by simp))
      (hs.resolve_right (by simp [Worker.isTaking]))
  | abandoning panicked reason =>
    have habandon :
        p.moveWorker? i .abandon = some (p.put i .checking, [.abandoned panicked reason]) := by
      simp [moveWorker?, hw, put]
    exact works_back hw habandon hq (hl.resolve_right (by simp))
      (hs.resolve_right (by simp [Worker.isTaking]))

end NextJob

/-- In a pool that is not dry a worker can go and take the first job of the queue. -/
theorem works_of_not_dry (hp : p.Sound n capacity) (hn : 0 < n) (hdry : ¬ p.Dry) :
    ∃ i moves job queue, p.queue = job :: queue ∧ i < n ∧
      p.works i moves = some (p.taken i job queue) := by
  rw [Dry, not_or] at hdry
  obtain ⟨hqueue, htaking⟩ := hdry
  obtain ⟨job, queue, hq⟩ := List.exists_cons_of_ne_nil hqueue
  -- Whoever holds the lock goes on; else a worker that wants it; else any worker, which has not
  -- left.
  have hchosen : ∃ (i : Nat) (w : Worker J), p.workers[i]? = some w ∧ w ≠ .left ∧
      (p.isLocked = false ∨ w = .selecting) ∧ (p.signal = false ∨ w.isTaking = true) := by
    cases hl : p.isLocked with
    | true =>
      obtain ⟨i, hi⟩ := List.mem_iff_getElem?.mp (isLocked_iff.mp hl)
      exact ⟨i, .selecting, hi, by simp, .inr rfl, .inr rfl⟩
    | false =>
      cases hs : p.signal with
      | true =>
        have hsome : ∃ w ∈ p.workers, w.isTaking = true := by
          by_contra hnone
          refine htaking ⟨hs, fun w hw => ?_⟩
          exact Bool.eq_false_iff.mpr fun h => hnone ⟨w, hw, h⟩
        obtain ⟨w, hw, htakes⟩ := hsome
        obtain ⟨i, hi⟩ := List.mem_iff_getElem?.mp hw
        refine ⟨i, w, hi, ?_, .inl rfl, .inr htakes⟩
        rintro rfl
        cases htakes
      | false =>
        have hlen : 0 < p.workers.length := by rw [hp.workers]; exact hn
        refine ⟨0, p.workers[0], List.getElem?_eq_getElem hlen, fun hleft => ?_, .inl rfl, .inl rfl⟩
        exact hqueue (hp.left hs (hleft ▸ List.getElem_mem hlen)).1
  obtain ⟨i, w, hw, hleft, hl, hs⟩ := hchosen
  have hi : i < n := by
    rw [← hp.workers]
    exact (List.getElem?_eq_some_iff.mp hw).1
  exact ⟨i, w.toNextJob, job, queue, hq, hi, works_toNextJob hw hq hleft hl hs⟩

/-! ## After the signal -/

/-- The jobs that a worker has begun. -/
def begunBy (worker : Nat) (history : List (PoolEvent J)) : List J :=
  recorded JobRecord.begun? (history.filter (PoolEvent.isBy worker))

theorem Step.signal_of_signal {event : PoolEvent J} (h : Step capacity p event q)
    (hs : p.signal = true) :
    q.signal = true := by
  cases h with
  | signal _ => rfl
  | _ => exact hs

/-- A move after the signal: what it begins, and what its worker can still begin. -/
theorem Moves.begun_le {w next : Worker J} {record : Option (JobRecord J)} {queue : List J}
    (h : p.Moves w record next queue) (hs : p.signal = true) :
    (record.bind JobRecord.begun?).toList.length + next.isTaking.toNat ≤ w.isTaking.toNat := by
  cases h with
  | check h =>
    rw [hs] at h
    cases h
  | _ => simp [Worker.isTaking, JobRecord.begun?]

theorem Moves.movesLeft_lt {w next : Worker J} {record : Option (JobRecord J)} {queue : List J}
    (h : p.Moves w record next queue) (hs : p.signal = true) : next.movesLeft < w.movesLeft := by
  cases h with
  | check h =>
    rw [hs] at h
    cases h
  | _ => simp [Worker.movesLeft]

/-- A step after the signal, as one worker sees it: it may begin a job only if it is on its way to
one, and its moves are numbered. -/
theorem Step.worker {event : PoolEvent J} (h : Step capacity p event q) (hs : p.signal = true)
    {i : Nat} {w : Worker J} (hw : p.workers[i]? = some w) : ∃ next, q.workers[i]? = some next ∧
      (begunBy i [event]).length + next.isTaking.toNat ≤ w.isTaking.toNat ∧
      [event].countP (PoolEvent.isBy i) + next.movesLeft ≤ w.movesLeft := by
  have hother : event.isBy i = false → q.workers[i]? = some w → ∃ next, q.workers[i]? = some next ∧
      (begunBy i [event]).length + next.isTaking.toNat ≤ w.isTaking.toNat ∧
      [event].countP (PoolEvent.isBy i) + next.movesLeft ≤ w.movesLeft := by
    intro hby hsame
    refine ⟨w, hsame, ?_, ?_⟩
    · simp [begunBy, hby]
    · simp [hby]
  cases h with
  | @work j v next record queue hv h =>
    by_cases hj : j = i
    · subst hj
      obtain rfl : v = w := Option.some.inj (hv.symm.trans hw)
      have hby : (PoolEvent.moved j record).isBy j = true := by simp [PoolEvent.isBy]
      have hbegun := h.begun_le hs
      have hlt := h.movesLeft_lt hs
      refine ⟨next, put_worker hv, ?_, ?_⟩
      · rw [begunBy, List.filter_cons_of_pos hby, List.filter_nil, recorded_cons, recorded_nil,
          List.append_nil]
        exact hbegun
      · rw [List.countP_cons_of_pos hby, List.countP_nil]
        omega
    · exact hother (by simp [PoolEvent.isBy, hj]) ((List.getElem?_set_ne hj).trans hw)
  | _ => exact hother rfl hw

/-- After the signal a worker begins at most one job, and that only if it was on its way to one; and
it makes few moves. -/
theorem Runs.worker {history : List (PoolEvent J)} (h : Runs capacity p history q)
    (hs : p.signal = true) {i : Nat} {w : Worker J} (hw : p.workers[i]? = some w) :
    ∃ next, q.workers[i]? = some next ∧
      (begunBy i history).length + next.isTaking.toNat ≤ w.isTaking.toNat ∧
      history.countP (PoolEvent.isBy i) + next.movesLeft ≤ w.movesLeft := by
  induction h generalizing w with
  | start => exact ⟨w, hw, Nat.le_of_eq (Nat.zero_add _), Nat.le_of_eq (Nat.zero_add _)⟩
  | @step p q r event history head _ ih =>
    obtain ⟨mid, hmid, hbegun, hmoves⟩ := head.worker hs hw
    obtain ⟨next, hnext, hbegunRest, hmovesRest⟩ := ih (head.signal_of_signal hs) hmid
    have happend : begunBy i (event :: history) = begunBy i [event] ++ begunBy i history := by
      rw [begunBy, begunBy, begunBy, ← recorded_append, ← List.filter_append, List.singleton_append]
    refine ⟨next, hnext, ?_, ?_⟩
    · rw [happend, List.length_append]
      omega
    · rw [← List.singleton_append, List.countP_append]
      omega

/-- After the signal some worker can move as long as one has not left. -/
theorem exists_move (hs : p.signal = true) (hleft : p.allLeft = false) :
    ∃ i move, (p.moveWorker? i move).isSome = true := by
  have hsome : ∃ w ∈ p.workers, w ≠ .left := by
    by_contra hnone
    have hall : p.allLeft = true := by
      rw [allLeft_iff]
      intro w hw
      by_contra hne
      exact hnone ⟨w, hw, hne⟩
    rw [hleft] at hall
    cases hall
  obtain ⟨w, hw, hne⟩ := hsome
  obtain ⟨i, hi⟩ := List.mem_iff_getElem?.mp hw
  cases w with
  | left => exact absurd rfl hne
  | checking => exact ⟨i, .check, by simp [moveWorker?, hi]⟩
  | running job => exact ⟨i, .finish, by simp [moveWorker?, hi]⟩
  | abandoning job reason => exact ⟨i, .abandon, by simp [moveWorker?, hi]⟩
  | selecting => exact ⟨i, .notice, by simp [moveWorker?, hi, hs]⟩
  | waiting =>
    -- Whoever holds the lock can let go of it.
    cases hl : p.isLocked with
    | false => exact ⟨i, .lock, by simp [moveWorker?, hi, hl]⟩
    | true =>
      obtain ⟨j, hj⟩ := List.mem_iff_getElem?.mp (isLocked_iff.mp hl)
      exact ⟨j, .notice, by simp [moveWorker?, hj, hs]⟩

end Pool

namespace Executor

variable {J : Type} {e later : Executor J}

/-- Moves of a worker are a schedule of its executor, which leaves everything else as it is. -/
theorem run_works {index i : Nat} {moves : List WorkerMove} {pool next : Pool J}
    (hp : e.pools[index]? = some pool) (h : pool.works i moves = some next) :
    ∃ log, e.run (moves.map (.work index i)) =
      some { e with pools := e.pools.set index next, log } := by
  induction moves generalizing e pool with
  | nil =>
    obtain rfl := Option.some.inj h
    obtain ⟨hlt, rfl⟩ := List.getElem?_eq_some_iff.mp hp
    refine ⟨e.log, ?_⟩
    rw [List.set_getElem_self]
    rfl
  | cons move rest ih =>
    obtain ⟨⟨mid, records⟩, hmove, hrest⟩ := Option.bind_eq_some_iff.mp h
    have hlt : index < e.pools.length := (List.getElem?_eq_some_iff.mp hp).1
    have hstep : e.step (.work index i move)
        = some { e with pools := e.pools.set index mid, log := records ++ e.log } := by
      simp only [step, hp, hmove, Option.map_some]
    obtain ⟨log, hlog⟩ :=
      ih (e := { e with pools := e.pools.set index mid, log := records ++ e.log })
        (List.getElem?_set_self hlt) hrest
    refine ⟨log, ?_⟩
    rw [List.map_cons, run_cons, hstep, Option.bind_some, hlog]
    simp only [List.set_set]

/-- What is begun of a pool that is not open comes off its queue as it is, from the front. -/
theorem Sound.queue_eq_of_run {index : Nat} {pool : Pool J} {rest : List (Label J)} (he : e.Sound)
    (hp : e.pools[index]? = some pool) (hopen : pool.stage ≠ .open) (h : e.run rest = some later) :
    ∃ now, later.pools[index]? = some now ∧
      Pool.Runs e.capacity pool (ofPool index (e.history rest)) now ∧
      pool.queue = recorded JobRecord.begun? (ofPool index (e.history rest)) ++ now.queue := by
  obtain ⟨now, hnow, hruns⟩ := (runs_of_run he h).pool hp
  have hjobs := hruns.queue_eq
  rw [hruns.accepted_eq_nil hopen, List.append_nil] at hjobs
  exact ⟨now, hnow, hruns, hjobs⟩

/-- A pool that is not open begins no job of its queue any more if and only if it is dry. -/
theorem Sound.begins_none_iff {index : Nat} {pool : Pool J} (he : e.Sound) (hn : 0 < e.concurrency)
    (hp : e.pools[index]? = some pool) (hopen : pool.stage ≠ .open) :
    (∀ rest later, e.run rest = some later →
      recorded JobRecord.begun? (ofPool index (e.history rest)) = []) ↔
      pool.Dry := by
  constructor
  · intro hnone
    by_contra hwet
    -- Some worker takes the first job, and then the queue is shorter.
    obtain ⟨i, moves, job, queue, hq, -, hworks⟩ :=
      Pool.works_of_not_dry (he.pools pool (List.mem_of_getElem? hp)) hn hwet
    obtain ⟨log, hrun⟩ := run_works hp hworks
    obtain ⟨now, hnow, -, hjobs⟩ := he.queue_eq_of_run hp hopen hrun
    have hlt : index < e.pools.length := (List.getElem?_eq_some_iff.mp hp).1
    obtain rfl : pool.taken i job queue = now :=
      Option.some.inj ((List.getElem?_set_self hlt).symm.trans hnow)
    rw [hnone _ _ hrun, hq] at hjobs
    exact absurd hjobs (List.cons_ne_self job queue)
  · intro hdry rest later hrest
    obtain ⟨now, -, hruns, -⟩ := he.queue_eq_of_run hp hopen hrest
    exact (hruns.dry hopen hdry).2

/-- Once a pool has been signalled, its workers can still begin jobs of its queue unless it is dry:
none is ever begun if and only if the queue is empty or no worker is on its way to a job. The jobs
that are begun are the first of the queue, at most one by each worker that was on its way and none
by the others; the rest is dropped. A worker makes few more moves, and the workers come to rest only
when all have left. -/
theorem dropped_of_signal {concurrency capacity : Nat} {labels : List (Label J)} {index : Nat}
    {pool : Pool J} (h : (new concurrency capacity).run labels = some e)
    (hp : e.pools[index]? = some pool) (hs : pool.signal = true) :
    ((∀ rest later, e.run rest = some later →
      recorded JobRecord.begun? (ofPool index (e.history rest)) = []) ↔
      pool.queue = [] ∨ ∀ w ∈ pool.workers, w.isTaking = false) ∧
    ∀ rest later, e.run rest = some later → ∃ now, later.pools[index]? = some now ∧
      pool.queue = recorded JobRecord.begun? (ofPool index (e.history rest)) ++ now.queue ∧
      (∀ i w, pool.workers[i]? = some w →
        (Pool.begunBy i (ofPool index (e.history rest))).length ≤ w.isTaking.toNat ∧
        rest.countP (Label.isMove index i) ≤ w.movesLeft) ∧
      (now.allLeft = false → ∃ i move, (later.step (.work index i move)).isSome = true) := by
  have he : e.Sound := sound_of_run h
  have hn : 0 < e.concurrency := (limits_pos_of_run h).1
  have hopen : pool.stage ≠ .open := by
    rcases (he.pools pool (List.mem_of_getElem? hp)).signal hs with hstage | hstage | hstage <;>
      rw [hstage] <;> simp
  have hdry : pool.Dry ↔ pool.queue = [] ∨ ∀ w ∈ pool.workers, w.isTaking = false := by
    rw [Pool.Dry, hs]
    simp
  refine ⟨(he.begins_none_iff hn hp hopen).trans hdry, fun rest later hrest => ?_⟩
  obtain ⟨now, hnow, hruns, hjobs⟩ := he.queue_eq_of_run hp hopen hrest
  refine ⟨now, hnow, hjobs, fun i w hw => ?_, fun hleft => ?_⟩
  · obtain ⟨next, -, hbegun, hmoves⟩ := hruns.worker hs hw
    rw [countP_isMove_eq index i hrest]
    omega
  · have hsnow : now.signal = true := hruns.preserves Pool.Step.signal_of_signal hs
    obtain ⟨i, move, hmove⟩ := Pool.exists_move hsnow hleft
    refine ⟨i, move, ?_⟩
    simp only [step, hnow, Option.isSome_map]
    exact hmove

/-- One worker that was on its way to a job when the queue was to be dropped. -/
def dropLabels : List (Label Nat) :=
  [.start, .work 0 0 .check, .work 0 0 .lock, .submit 7, .submit 8, .stop false, .advanceStop 0]

theorem dropped_of_signal_taking :
    ∃ e pool, (new 1 2).run dropLabels = some e ∧ e.pools[0]? = some pool ∧
    pool.signal = true ∧ pool.workers = [.selecting] ∧ pool.queue = [7, 8] ∧
    ∀ rest later, e.run rest = some later →
      (Pool.begunBy 0 (ofPool 0 (e.history rest))).length ≤ 1 ∧
        rest.countP (Label.isMove 0 0) ≤ 4 := by
  refine ⟨_, _, rfl, rfl, rfl, rfl, rfl, fun rest later hrest => ?_⟩
  obtain ⟨now, -, -, hworker, -⟩ :=
    (@dropped_of_signal Nat _ 1 2 dropLabels 0 _ rfl rfl rfl).2 rest later hrest
  exact hworker 0 .selecting rfl

/-- A queued job begun after the signal. -/
theorem begun_after_signal :
    ∃ e pool later, (new 1 2).run dropLabels = some e ∧ e.pools[0]? = some pool ∧
    pool.signal = true ∧ pool.queue = [7, 8] ∧ e.run [.work 0 0 .receive] = some later ∧
    recorded JobRecord.begun? (ofPool 0 (e.history [.work 0 0 .receive])) = [7] :=
  ⟨_, _, _, rfl, rfl, rfl, rfl, rfl, rfl⟩

end Executor

end LedgerBench
