import LedgerBench.Proofs.Executor.Pool
/-!
Histories of executors.

The history of a schedule is what happens to the pools in it, each event with the number of its pool
(`Executor.history`). What is proved:
  1. `Executor.step_cases`: a step does nothing, opens a pool, or is a step of one pool.
  2. `Executor.Sound`: only the newest pool may be open, and every pool is sound.
  3. `Executor.runs_of_run`: a schedule is a chain of steps that makes its history, and each pool
     has taken the steps of its own part of it, whatever happened to the others in between
     (`Runs.poolAt`).
  4. `taken_of_mem_history` and `countP_isMove_eq`: what the labels of a schedule say of its
     history.
-/

namespace LedgerBench

namespace Executor

variable {J : Type} {e later : Executor J}

/-- What a step is for the pools, each with its number: nothing at all, or an event of one of
them. -/
def events (e : Executor J) : Label J → List (Nat × PoolEvent J)
  | .start => []
  | .submit job =>
    match e.submit job with
    | .ok _ => [(e.pools.length - 1, .accepted job)]
    | .error _ => []
  | .stop drain => if e.isRunning then [(e.pools.length - 1, .taken drain)] else []
  | .advanceStop index => [(index, .advanced)]
  | .work index worker move =>
    match e.pools[index]? with
    | some pool =>
      match pool.moveWorker? worker move with
      | some (_, records) => [(index, .moved worker records.head?)]
      | none => []
    | none => []

/-- What happens to the pools in a schedule, as far as it is possible. -/
def history (e : Executor J) : List (Label J) → List (Nat × PoolEvent J)
  | [] => []
  | label :: rest =>
    match e.step label with
    | some later => e.events label ++ later.history rest
    | none => []

/-- The part of a history that is of one pool. -/
def ofPool (index : Nat) (history : List (Nat × PoolEvent J)) : List (PoolEvent J) :=
  history.filterMap fun (i, event) => if i = index then some event else none

theorem ofPool_append (index : Nat) (a b : List (Nat × PoolEvent J)) :
    ofPool index (a ++ b) = ofPool index a ++ ofPool index b :=
  List.filterMap_append

theorem ofPool_singleton (index i : Nat) (event : PoolEvent J) :
    ofPool index [(i, event)] = if i = index then [event] else [] := by
  by_cases h : i = index <;> simp [ofPool, h]

theorem run_cons (label : Label J) (rest : List (Label J)) :
    e.run (label :: rest) = (e.step label).bind fun mid => mid.run rest := rfl

theorem run_append (first rest : List (Label J)) :
    e.run (first ++ rest) = (e.run first).bind fun mid => mid.run rest :=
  List.foldlM_append

theorem history_cons {label : Label J} (h : e.step label = some later) (rest : List (Label J)) :
    e.history (label :: rest) = e.events label ++ later.history rest := by
  rw [history, h]

/-! ## What a step can do -/

/-- Whether an executor can make its queue and its workers. -/
def Startable (e : Executor J) : Prop := e.capacity ≤ maxQueue ∧ e.concurrency ≤ maxItems

/-- An executor whose running is that of its newest pool. -/
structure Sound (e : Executor J) : Prop where
  isOpen : ∀ index pool, e.pools[index]? = some pool →
    (pool.stage = .open ↔ e.isRunning = true ∧ index + 1 = e.pools.length)
  ne_nil : e.isRunning = true → e.pools ≠ []
  startable : e.pools ≠ [] → e.Startable
  pools : ∀ pool ∈ e.pools, pool.Sound e.concurrency e.capacity

theorem sound_new (concurrency capacity : Nat) : (new concurrency capacity : Executor J).Sound where
  isOpen index pool h := by simp [new] at h
  ne_nil h := by simp [new] at h
  startable h := by simp [new] at h
  pools pool h := by simp [new] at h

/-- An executor that runs has an open pool, the newest. -/
theorem Sound.exists_open (he : e.Sound) (h : e.isRunning = true) :
    ∃ pool, e.pools.getLast? = some pool ∧ pool.stage = .open := by
  have hlen := List.length_pos_iff.mpr (he.ne_nil h)
  have hget : e.pools[e.pools.length - 1]? = some (e.pools[e.pools.length - 1]) :=
    List.getElem?_eq_getElem (Nat.sub_lt hlen Nat.one_pos)
  exact ⟨_, List.getLast?_eq_getElem?.trans hget, (he.isOpen _ _ hget).mpr ⟨h, by omega⟩⟩

theorem Sound.not_open (he : e.Sound) (h : e.isRunning = false) :
    ∀ pool ∈ e.pools, pool.stage ≠ .open := by
  intro pool hpool hopen
  obtain ⟨index, hget⟩ := List.mem_iff_getElem?.mp hpool
  have hrunning := ((he.isOpen index pool hget).mp hopen).1
  rw [h] at hrunning
  cases hrunning

/-- Whether an executor runs after a step of one of its pools: only the step that takes the open
pool ends that. -/
def runsAfter (e : Executor J) (pool next : Pool J) : Bool :=
  if pool.stage = .open then next.stage = .open else e.isRunning

inductive Step (e : Executor J) : List (Nat × PoolEvent J) → Executor J → Prop where
  | idle : Step e [] e
  | start (h : e.isRunning = false) (hstartable : e.Startable) :
      Step e [] { e with pools := e.pools ++ [.fresh e.concurrency], isRunning := true }
  | pool (index : Nat) {pool next : Pool J} {event : PoolEvent J} (hp : e.pools[index]? = some pool)
      (h : pool.Step e.capacity event next) :
      Step e [(index, event)]
        { e with
          pools := e.pools.set index next
          isRunning := e.runsAfter pool next
          log := event.record?.toList ++ e.log }

/-- A step of the newest pool, which is replaced at the end of the list. -/
theorem step_last {pool next : Pool J} {event : PoolEvent J} (hlast : e.pools.getLast? = some pool)
    (h : pool.Step e.capacity event next) :
    Step e [(e.pools.length - 1, event)]
      { e with
        pools := e.pools.dropLast ++ [next]
        isRunning := e.runsAfter pool next
        log := event.record?.toList ++ e.log } := by
  have hset : e.pools.dropLast ++ [next] = e.pools.set (e.pools.length - 1) next := by
    obtain ⟨earlier, hpools⟩ := List.getLast?_eq_some_iff.mp hlast
    rw [hpools]
    simp
  rw [hset]
  exact .pool _ (List.getLast?_eq_getElem?.symm.trans hlast) h

theorem step_submit {job : J} (he : e.Sound) (h : e.submit job = .ok later) :
    Step e [(e.pools.length - 1, .accepted job)] later := by
  unfold submit at h
  split at h
  · rename_i pool hrunning hlast
    obtain ⟨opened, hopened, hopen⟩ := he.exists_open hrunning
    obtain rfl : opened = pool := Option.some.inj (hopened.symm.trans hlast)
    split at h
    · cases h
    · rename_i hroom
      obtain rfl := Except.ok.inj h
      have hstep := step_last hlast (.accept job hopen (Nat.lt_of_not_le hroom))
      simpa [runsAfter, hopen, hrunning, PoolEvent.record?] using hstep
  · cases h

theorem step_stop (he : e.Sound) (drain : Bool) :
    Step e (e.events (.stop drain)) (e.stop drain) := by
  cases hrunning : e.isRunning with
  | false => simpa [stop, events, hrunning] using Step.idle
  | true =>
    obtain ⟨pool, hlast, hopen⟩ := he.exists_open hrunning
    have hstep := step_last hlast (.take drain hopen)
    simpa [stop, events, hrunning, hlast, runsAfter, hopen, PoolEvent.record?] using hstep

theorem step_start (h : e.start = .ok later) : Step e [] later := by
  unfold start at h
  split at h
  · obtain rfl := Except.ok.inj h
    exact .idle
  · rename_i hrunning
    split at h
    · cases h
    · rename_i hcapacity
      split at h
      · cases h
      · rename_i hconcurrency
        obtain rfl := Except.ok.inj h
        exact .start (Bool.not_eq_true _ ▸ hrunning) ⟨Nat.le_of_not_lt hcapacity,
          Nat.le_of_not_lt hconcurrency⟩

/-- A worker's step leaves the stage of its pool alone. -/
theorem stage_of_moveWorker {pool next : Pool J} {worker : Nat} {move : WorkerMove}
    {records : List (JobRecord J)} (h : pool.moveWorker? worker move = some (next, records)) :
    next.stage = pool.stage := by
  obtain ⟨w, record, moved, queue, -, -, -, rfl⟩ := Pool.moves_of_moveWorker h
  rfl

theorem Sound.runsAfter_eq (he : e.Sound) {index : Nat} {pool next : Pool J}
    (hp : e.pools[index]? = some pool) (h : next.stage = pool.stage ∨ pool.stage ≠ .open) :
    e.runsAfter pool next = e.isRunning := by
  unfold runsAfter
  split
  · rename_i hopen
    rcases h with h | h
    · rw [h, hopen, ((he.isOpen index pool hp).mp hopen).1]
      rfl
    · exact absurd hopen h
  · rfl

theorem step_cases {label : Label J} (he : e.Sound) (h : e.step label = some later) :
    Step e (e.events label) later := by
  cases label with
  | start =>
    simp only [step] at h
    split at h
    · rename_i started hstart
      obtain rfl := Option.some.inj h
      exact step_start hstart
    · cases h
  | submit job =>
    simp only [step] at h
    split at h
    · rename_i accepted hsubmit
      obtain rfl := Option.some.inj h
      simp only [events, hsubmit]
      exact step_submit he hsubmit
    · rename_i hsubmit
      obtain rfl := Option.some.inj h
      simp only [events, hsubmit]
      exact .idle
  | stop drain =>
    obtain rfl := Option.some.inj h
    exact step_stop he drain
  | advanceStop index =>
    simp only [step] at h
    split at h
    · rename_i pool hp
      obtain ⟨next, hadvance, rfl⟩ := Option.map_eq_some_iff.mp h
      have hstep := Step.pool (e := e) index hp (Pool.step_of_advanceStop hadvance)
      have hopen : pool.stage ≠ .open := fun hopen => by simp [Pool.advanceStop?, hopen] at hadvance
      rw [he.runsAfter_eq hp (.inr hopen)] at hstep
      exact hstep
    · cases h
  | work index worker move =>
    simp only [step] at h
    split at h
    · rename_i pool hp
      obtain ⟨⟨next, records⟩, hmove, rfl⟩ := Option.map_eq_some_iff.mp h
      have hstage := stage_of_moveWorker hmove
      obtain ⟨w, record, moved, queue, hw, hmoves, rfl, rfl⟩ := Pool.moves_of_moveWorker hmove
      have hstep := Step.pool (e := e) index hp (.work worker hw hmoves)
      rw [he.runsAfter_eq hp (.inl hstage)] at hstep
      simp only [events, hp, hmove]
      rw [show record.toList.head? = record by cases record <;> rfl]
      exact hstep
    · cases h

/-- A pool that is opened is the newest, and then the only open one. -/
theorem Sound.isOpen_append (he : e.Sound) (h : e.isRunning = false) (n index : Nat) {pool : Pool J}
    (hget : (e.pools ++ [Pool.fresh n])[index]? = some pool) :
    pool.stage = .open ↔ index + 1 = e.pools.length + 1 := by
  rcases Nat.lt_trichotomy index e.pools.length with hlt | rfl | hgt
  · rw [List.getElem?_append_left hlt] at hget
    have hclosed := he.not_open h pool (List.mem_of_getElem? hget)
    constructor
    · exact fun hopen => absurd hopen hclosed
    · intro hlast
      omega
  · simp only [List.getElem?_concat_length, Option.some.injEq] at hget
    subst hget
    simp [Pool.fresh]
  · rw [List.getElem?_eq_none (by simp; omega)] at hget
    cases hget

/-- A step of one pool leaves at most the newest open, and that only while the executor runs. -/
theorem Sound.isOpen_set (he : e.Sound) {index : Nat} {pool next : Pool J} {event : PoolEvent J}
    (hp : e.pools[index]? = some pool) (h : pool.Step e.capacity event next) (i : Nat)
    {other : Pool J} (hget : (e.pools.set index next)[i]? = some other) :
    other.stage = .open ↔ e.runsAfter pool next = true ∧ i + 1 = e.pools.length := by
  rw [List.getElem?_set] at hget
  split at hget
  · subst i
    rw [if_pos (List.getElem?_eq_some_iff.mp hp).1] at hget
    obtain rfl := Option.some.inj hget
    have hopen := he.isOpen index pool hp
    unfold runsAfter
    split
    · rename_i hpool
      have hlast := (hopen.mp hpool).2
      simp [hlast]
    · rename_i hpool
      constructor
      · exact fun hnext => absurd (h.open_of_open hnext) hpool
      · exact fun hrunning => absurd (hopen.mpr hrunning) hpool
  · -- Another pool is open only where it is the newest, and then the pool of this step is not open.
    rename_i hne
    rw [he.isOpen i other hget]
    constructor
    · rintro ⟨hrunning, hlast⟩
      have hpool : pool.stage ≠ .open := by
        intro hopen
        have := ((he.isOpen index pool hp).mp hopen).2
        omega
      exact ⟨by rw [runsAfter, if_neg hpool, hrunning], hlast⟩
    · rintro ⟨hrunning, hlast⟩
      refine ⟨?_, hlast⟩
      unfold runsAfter at hrunning
      split at hrunning
      · exact ((he.isOpen index pool hp).mp ‹_›).1
      · exact hrunning

theorem Sound.step {es : List (Nat × PoolEvent J)} (h : Step e es later) (he : e.Sound) :
    later.Sound := by
  cases h with
  | idle => exact he
  | start h hstartable =>
    refine ⟨fun index pool hget => ?_, fun _ => by simp, fun _ => hstartable, fun pool hpool => ?_⟩
    · rw [he.isOpen_append h _ index hget, List.length_append, List.length_singleton]
      exact (and_iff_right rfl).symm
    · rcases List.mem_append.mp hpool with hpool | hpool
      · exact he.pools pool hpool
      · rw [List.mem_singleton.mp hpool]
        exact Pool.sound_fresh _ _
  | @pool index pool next event hp h =>
    have hne : e.pools ≠ [] := List.ne_nil_of_mem (List.mem_of_getElem? hp)
    refine ⟨fun i other hget => ?_, fun _ => ?_, fun _ => he.startable hne, fun other hother => ?_⟩
    · rw [he.isOpen_set hp h i hget, List.length_set]
    · show e.pools.set index next ≠ []
      simp [hne]
    · rcases List.mem_or_eq_of_mem_set hother with hother | rfl
      · exact he.pools other hother
      · exact (he.pools pool (List.mem_of_getElem? hp)).step h

/-! ## Chains of steps -/

/-- A chain of steps, with all they record, in order. -/
inductive Runs : Executor J → List (Nat × PoolEvent J) → Executor J → Prop where
  | start (e : Executor J) : Runs e [] e
  | step {e mid later : Executor J} {es rest : List (Nat × PoolEvent J)} (head : Step e es mid)
      (tail : Runs mid rest later) : Runs e (es ++ rest) later

/-- A schedule is a chain of steps that makes its history. -/
theorem runs_of_run {labels : List (Label J)} (he : e.Sound) (h : e.run labels = some later) :
    Runs e (e.history labels) later := by
  induction labels generalizing e with
  | nil =>
    obtain rfl := Option.some.inj h
    exact .start e
  | cons label rest ih =>
    rw [run_cons] at h
    obtain ⟨mid, hstep, hrest⟩ := Option.bind_eq_some_iff.mp h
    have hcases := step_cases he hstep
    rw [history, hstep]
    exact .step hcases (ih (he.step hcases) hrest)

namespace Runs

variable {history : List (Nat × PoolEvent J)}

/-- What every step preserves holds at the end of a chain. -/
theorem preserves {P : Executor J → Prop}
    (hstep : ∀ {e later : Executor J} {es : List (Nat × PoolEvent J)}, Step e es later → P e →
      P later) (h : Runs e history later) (he : P e) : P later := by
  induction h with
  | start => exact he
  | step head _ ih => exact ih (hstep head he)

theorem sound (h : Runs e history later) (he : e.Sound) : later.Sound := h.preserves Sound.step he

theorem limits_eq (h : Runs e history later) :
    later.concurrency = e.concurrency ∧ later.capacity = e.capacity := by
  refine h.preserves (P := fun later => later.concurrency = e.concurrency ∧
    later.capacity = e.capacity) ?_ ⟨rfl, rfl⟩
  intro mid next es hstep hmid
  cases hstep <;> exact hmid

end Runs

/-- A pool of an executor, which may be still to come. -/
def poolAt (e : Executor J) (index : Nat) : Pool J := e.pools[index]?.getD (.fresh e.concurrency)

theorem poolAt_of_getElem? {index : Nat} {pool : Pool J} (h : e.pools[index]? = some pool) :
    e.poolAt index = pool := by
  rw [poolAt, h, Option.getD_some]

/-- A step is one of each pool, or leaves it as it is. -/
theorem Step.poolAt {es : List (Nat × PoolEvent J)} (h : Step e es later) (index : Nat) :
    Pool.Runs e.capacity (e.poolAt index) (ofPool index es) (later.poolAt index) := by
  cases h with
  | idle => exact .start _
  | start _ _ =>
    have hsame : Executor.poolAt { e with pools := e.pools ++ [.fresh e.concurrency],
                                          isRunning := true } index
        = e.poolAt index := by
      rcases Nat.lt_trichotomy index e.pools.length with hlt | rfl | hgt
      · simp [Executor.poolAt, List.getElem?_append_left hlt]
      · simp [Executor.poolAt]
      · rw [Executor.poolAt, Executor.poolAt, List.getElem?_eq_none (by simp; omega),
          List.getElem?_eq_none (by omega)]
    rw [hsame]
    exact .start _
  | @pool i pool next event hp h =>
    have hlen : i < e.pools.length := (List.getElem?_eq_some_iff.mp hp).1
    by_cases hi : i = index
    · subst hi
      have hlater : (e.pools.set i next)[i]? = some next := List.getElem?_set_self hlen
      have hof : ofPool i [(i, event)] = [event] := by rw [ofPool_singleton, if_pos rfl]
      rw [hof, poolAt_of_getElem? hp, poolAt_of_getElem? hlater]
      exact .step h (.start _)
    · have hsame : (e.pools.set i next)[index]? = e.pools[index]? := List.getElem?_set_ne hi
      have hof : ofPool index [(i, event)] = [] := by rw [ofPool_singleton, if_neg hi]
      simp only [Executor.poolAt, hsame, hof]
      exact .start _

/-- Each pool has taken the steps that its own part of the history tells of, whatever happened to
the others in between. -/
theorem Runs.poolAt {history : List (Nat × PoolEvent J)} (h : Runs e history later) (index : Nat) :
    Pool.Runs e.capacity (e.poolAt index) (ofPool index history) (later.poolAt index) := by
  induction h with
  | start => exact .start _
  | @step e mid later es rest head _ ih =>
    have hcapacity : mid.capacity = e.capacity := by cases head <;> rfl
    rw [ofPool_append]
    rw [hcapacity] at ih
    exact (head.poolAt index).trans ih

/-- Pools stay, and each has taken the steps of its part of the history. -/
theorem Runs.pool {history : List (Nat × PoolEvent J)} (h : Runs e history later) {index : Nat}
    {pool : Pool J} (hp : e.pools[index]? = some pool) :
    ∃ now, later.pools[index]? = some now ∧
      Pool.Runs e.capacity pool (ofPool index history) now := by
  have hlt : index < e.pools.length := (List.getElem?_eq_some_iff.mp hp).1
  have hlater : index < later.pools.length := by
    refine h.preserves (P := fun later => index < later.pools.length) (fun hstep hmid => ?_) hlt
    cases hstep with
    | idle => exact hmid
    | start _ _ =>
      rw [List.length_append]
      omega
    | pool _ _ _ =>
      rw [List.length_set]
      exact hmid
  have hnow : later.pools[index]? = some (later.pools[index]) := List.getElem?_eq_getElem hlater
  have hruns := h.poolAt index
  rw [poolAt_of_getElem? hp, poolAt_of_getElem? hnow] at hruns
  exact ⟨_, hnow, hruns⟩

/-! ## Executors that were new -/

section New

variable {concurrency capacity : Nat} {labels : List (Label J)}

theorem sound_of_run (h : (new concurrency capacity).run labels = some later) : later.Sound :=
  (runs_of_run (sound_new concurrency capacity) h).sound (sound_new concurrency capacity)

/-- Both limits were raised to at least one. -/
theorem limits_pos_of_run (h : (new concurrency capacity).run labels = some later) :
    0 < later.concurrency ∧ 0 < later.capacity := by
  obtain ⟨hconcurrency, hcapacity⟩ := (runs_of_run (sound_new concurrency capacity) h).limits_eq
  rw [hconcurrency, hcapacity]
  show 0 < max concurrency 1 ∧ 0 < max capacity 1
  omega

/-- A pool of an executor that was new has been opened and has taken the steps that the history
tells of. -/
theorem runs_of_new {pool : Pool J} {index : Nat}
    (h : (new concurrency capacity).run labels = some later)
    (hp : later.pools[index]? = some pool) :
    Pool.Runs (max capacity 1) (.fresh (max concurrency 1))
      (ofPool index ((new concurrency capacity).history labels)) pool := by
  have hruns := (runs_of_run (sound_new concurrency capacity) h).poolAt index
  rw [poolAt_of_getElem? hp] at hruns
  exact hruns

end New

/-! ## Labels and events -/

/-- A pool is taken only by a stop. -/
theorem taken_of_mem_history {labels : List (Label J)} {index : Nat} {drain : Bool}
    (h : (index, .taken drain) ∈ e.history labels) : .stop drain ∈ labels := by
  induction labels generalizing e with
  | nil => cases h
  | cons label rest ih =>
    rw [history] at h
    split at h
    · rcases List.mem_append.mp h with h | h
      · cases label with
        | stop drain =>
          simp only [events] at h
          split at h
          · obtain ⟨-, heq⟩ := Prod.mk.inj (List.mem_singleton.mp h)
            obtain rfl := PoolEvent.taken.inj heq
            exact List.mem_cons_self
          · cases h
        | submit job =>
          simp only [events] at h
          split at h <;> simp at h
        | work index worker move =>
          simp only [events] at h
          repeat' split at h
          all_goals simp at h
        | _ => simp [events] at h
      · exact List.mem_cons_of_mem _ (ih h)
    · cases h

/-- Whether a label is a move of one worker. -/
def Label.isMove (pool worker : Nat) : Label J → Bool
  | .work p w _ => p = pool ∧ w = worker
  | _ => false

theorem countP_events_of_step {label : Label J} (index worker : Nat)
    (h : e.step label = some later) :
    (ofPool index (e.events label)).countP (PoolEvent.isBy worker) =
      (label.isMove index worker).toNat := by
  have hother : ∀ i (event : PoolEvent J), event.isBy worker = false →
      (ofPool index [(i, event)]).countP (PoolEvent.isBy worker) = 0 := by
    intro i event hevent
    rw [ofPool_singleton]
    split
    · simp [hevent]
    · rfl
  cases label with
  | start => rfl
  | submit job =>
    simp only [events]
    split
    · exact hother _ _ rfl
    · rfl
  | stop drain =>
    simp only [events]
    split
    · exact hother _ _ rfl
    · rfl
  | advanceStop p => exact hother _ _ rfl
  | work p w move =>
    simp only [step] at h
    split at h
    · rename_i pool hp
      obtain ⟨⟨next, records⟩, hmove, -⟩ := Option.map_eq_some_iff.mp h
      simp only [events, hp, hmove, ofPool_singleton, Label.isMove]
      by_cases hi : p = index <;> by_cases hj : w = worker <;> simp [hi, hj, PoolEvent.isBy]
    · cases h

/-- A worker has moved as often as the schedule says. -/
theorem countP_isMove_eq {labels : List (Label J)} (index worker : Nat)
    (h : e.run labels = some later) :
    labels.countP (Label.isMove index worker) = (ofPool index (e.history labels)).countP
      (PoolEvent.isBy worker) := by
  induction labels generalizing e with
  | nil => rfl
  | cons label rest ih =>
    rw [run_cons] at h
    obtain ⟨mid, hstep, hrest⟩ := Option.bind_eq_some_iff.mp h
    rw [history_cons hstep, ofPool_append, List.countP_append,
      countP_events_of_step index worker hstep, ← ih hrest, List.countP_cons, Nat.add_comm]
    cases label.isMove index worker <;> rfl

end Executor

end LedgerBench
