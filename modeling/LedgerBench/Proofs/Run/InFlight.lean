import LedgerBench.Proofs.Run.Accounting
import LedgerBench.Proofs.Run.Progress
import LedgerBench.Run.Report
import Mathlib.Data.List.Nodup
/-!
How far a run has come.

The progress of a run is read while it goes on, from what has been recorded by then. A group starts
a call only when the one before it has ended, and it acts only on a worker; so the calls under way
are no more than the workers, and no more than the groups that have not ended. What is proved:
  1. `counts_of_beginning`: what holds of the events that one group has reported so far.
  2. `Runs.holding`: a group that has acted is on a worker until it is done.
  3. `Begun.bounded_acts`: what follows for the events of all groups, as they are reported. They are
     recorded in this order, so it holds of those that have been recorded too
     (`Begun.bounded_taken`).
  4. `consistent_of_run`: at any time the progress of a run is consistent, and the snapshots that a
     reporter hands out never go back.
-/

namespace LedgerBench

open Program

/-! ## Counts -/

/-- Where one number is at most one more than another, the sums differ by as many as do. -/
theorem sum_le_add_countP {α : Type} {f g : α → Nat} {l : List α} (h : ∀ a ∈ l, f a ≤ g a + 1) :
    (l.map f).sum ≤ (l.map g).sum + l.countP fun a => g a < f a := by
  induction l with
  | nil => simp
  | cons a rest ih =>
    obtain ⟨ha, hrest⟩ := List.forall_mem_cons.mp h
    have hsum := ih hrest
    rw [List.map_cons, List.map_cons, List.sum_cons, List.sum_cons, List.countP_cons]
    by_cases hlt : g a < f a
    · simp only [hlt, decide_true, if_true]
      omega
    · simp only [hlt, decide_false, Bool.false_eq_true, if_false]
      omega

theorem sum_le_add_mul {α : Type} {f g : α → Nat} {n : Nat} {l : List α}
    (h : ∀ a ∈ l, f a ≤ g a + n) :
    (l.map f).sum ≤ (l.map g).sum + l.length * n := by
  induction l with
  | nil => simp
  | cons a rest ih =>
    obtain ⟨ha, hrest⟩ := List.forall_mem_cons.mp h
    have hsum := ih hrest
    rw [List.map_cons, List.map_cons, List.sum_cons, List.sum_cons, List.length_cons, Nat.succ_mul]
    omega

/-- What a group with some calls has reported so far: each call starts when the one before it has
ended, and the end of the group comes last. -/
structure Event.Steady (entries : Nat) (events : List Event) : Prop where
  outcomes_le : events.countP isOutcome ≤ events.countP isStart
  starts_le : events.countP isStart ≤ entries
  ends_le : events.countP isGroupEnd ≤ 1
  open_le : events.countP isStart + events.countP isGroupEnd ≤ events.countP isOutcome + 1

theorem Task.counts_of_beginning {binding : Binding} {is : List (Invocation binding)}
    {events rest : List Event} {last : Event} (hlast : last.isGroupEnd = true)
    (h : events ++ rest = is.flatMap Invocation.reports ++ [last]) :
    Event.Steady is.length events := by
  induction is generalizing events with
  | nil =>
    cases events with
    | nil => exact ⟨Nat.le_refl _, Nat.le_refl _, Nat.zero_le _, Nat.zero_le _⟩
    | cons event more =>
      obtain ⟨rfl, hnil⟩ := List.cons.inj h
      obtain ⟨rfl, -⟩ := List.append_eq_nil_iff.mp hnil
      cases event with
      | started task function => cases hlast
      | completed o => cases hlast
      | groupCompleted group members attempts error =>
        exact ⟨Nat.le_refl _, Nat.le_refl _, Nat.le_refl _, Nat.le_refl _⟩
  | cons i is ih =>
    -- The next call has not started, has started, or has ended.
    rcases events with _ | ⟨first, _ | ⟨second, more⟩⟩
    · exact ⟨Nat.le_refl _, Nat.zero_le _, Nat.zero_le _, Nat.zero_le _⟩
    · obtain ⟨rfl, -⟩ := List.cons.inj h
      exact ⟨Nat.zero_le _, Nat.succ_le_succ (Nat.zero_le _), Nat.zero_le _, Nat.le_refl _⟩
    · obtain ⟨rfl, htail⟩ := List.cons.inj h
      obtain ⟨rfl, hmore⟩ := List.cons.inj htail
      obtain ⟨houtcomes, hstarts, hends, hopen⟩ := ih hmore
      have hcounts : ∀ p : Event → Bool,
          (Event.started i.call.id i.call.spec.function :: .completed i.outcome :: more).countP p =
            more.countP p + (if p (.completed i.outcome) then 1 else 0) + if p
              (.started i.call.id i.call.spec.function) then 1 else 0 :=
        fun p => by rw [List.countP_cons, List.countP_cons]
      refine ⟨?_, ?_, ?_, ?_⟩ <;>
        simp only [hcounts, Event.isOutcome, Event.isStart, Event.isGroupEnd, Event.outcome?,
          Option.isSome, List.length_cons, if_true, Bool.false_eq_true, if_false] <;> omega

/-! ## Groups on workers -/

namespace Course

variable {σ : Type} {ledger : Ledger σ} {c later : Course σ} {acts : List Act}
  {pool : Pool Nat} {next : Nat}

theorem Step.holding (h : Step ledger c acts later) (hline : c.InLine pool next) {group : Nat}
    (hc : c.isRunning group = true ∨ c.IsDone group) :
    later.isRunning group = true ∨ later.IsDone group := by
  rcases hc with hrun | hdone
  · cases h with
    | submit hmay =>
      obtain ⟨-, heq⟩ := hline.submitNext_eq hmay
      rw [heq]
      refine .inl ((isRunning_iff rfl group).mpr ?_)
      exact (isRunning_iff hline.pools group).mp hrun
    | work ha he =>
      obtain ⟨after, records, hmove, rfl⟩ := Executor.eq_of_work hline.pools he
      obtain ⟨w, w', queue, hw, hadmitted, rfl⟩ := moves_of_admits hline.pools hline.signal ha hmove
      have hmem := (isRunning_iff hline.pools group).mp hrun
      -- A worker that leaves the group has come to its end.
      by_cases hsame : w = .running group
      · exact .inr (hadmitted.isDone_of_running hsame)
      · exact .inl ((isRunning_iff rfl group).mpr (InLine.mem_set_of_mem hw hmem (Ne.symm hsame)))
    | send hg hcall hr => exact .inl hrun
    | act service hg hserves hr => exact .inl hrun
    | record hr => exact .inl hrun
    | wait clock => exact .inl hrun
  · exact .inr (hdone.of_step h)

/-- A group that is on a worker stays there until it is done. -/
theorem Runs.holding (h : Runs ledger c acts later) (hline : ∃ pool next, c.InLine pool next)
    {group : Nat} (hc : c.isRunning group = true ∨ c.IsDone group) :
    later.isRunning group = true ∨ later.IsDone group := by
  induction h with
  | start c => exact hc
  | step head tail ih =>
    obtain ⟨pool, next, hpool⟩ := hline
    exact ih (hpool.of_step head) (head.holding hpool hc)

/-- A group that has acted is on a worker or done. -/
theorem Runs.holding_of_acted (h : Runs ledger c acts later)
    (hline : ∃ pool next, c.InLine pool next) {group : Nat} (hacted : Act.ofGroup group acts ≠ []) :
    later.isRunning group = true ∨ later.IsDone group := by
  obtain ⟨x, hx⟩ := List.exists_mem_of_ne_nil _ hacted
  obtain ⟨a, ha, -⟩ := List.mem_map.mp hx
  obtain ⟨hmem, hgroup⟩ := List.mem_filter.mp ha
  obtain ⟨before, after, rfl⟩ := List.append_of_mem hmem
  obtain ⟨here, mid, hbefore, hstep, hafter⟩ := h.split
  obtain ⟨pool, next, hpool⟩ := hbefore.in_line hline
  have hrun : here.isRunning group = true :=
    of_decide_eq_true hgroup ▸ (hstep.of_mem (List.mem_singleton_self a)).1
  exact hafter.holding (hpool.of_step hstep) (hstep.holding hpool (.inl hrun))

/-- Groups that are on workers at the same time are no more than the workers. -/
theorem length_running_le (hp : c.executor.pools = [pool]) {groups : List Nat}
    (hnodup : groups.Nodup) (hrun : ∀ g ∈ groups, c.isRunning g = true) :
    groups.length ≤ pool.workers.length := by
  have hinjective : Function.Injective (Worker.running : Nat → Worker Nat) :=
    fun _ _ h => Worker.running.inj h
  have hsubset : groups.map Worker.running ⊆ pool.workers := by
    intro w hw
    obtain ⟨g, hg, rfl⟩ := List.mem_map.mp hw
    exact (isRunning_iff hp g).mp (hrun g hg)
  calc groups.length
      = (groups.map (Worker.running : Nat → Worker Nat)).length := (List.length_map _).symm
    _ ≤ pool.workers.length := (List.subperm_of_subset (hnodup.map hinjective) hsubset).length_le

end Course

/-! ## What has been reported -/

namespace Bench

variable {σ : Type} {b : Bench σ} {s : Session σ} {specs : List CallSpec} {mode : CallMode}
  {startedAt : Timestamp} {start later : Course σ} {acts : List Act}

theorem Begun.steady (hb : b.Begun s specs mode startedAt start)
    (h : Course.Runs b.ledger start acts later) {g : Nat} (hg : g < b.config.iterations) :
    Event.Steady specs.length (Program.events (Act.ofGroup g acts)) := by
  obtain ⟨id, is, rest, hcalls, hxs, -⟩ := hb.group_after h hg
  obtain ⟨attempts, error, hreports⟩ := Task.events_group is id
  have hlength : is.length = specs.length := by
    have hmap := congrArg List.length hcalls
    rwa [List.length_map, callsOf, length_groupCalls] at hmap
  have hevents : Program.events (Act.ofGroup g acts) ++ Program.events rest =
      is.flatMap Invocation.reports ++ [.groupCompleted id is.length attempts error] := by
    rw [← events_append, hxs, hreports]
  rw [← hlength]
  exact Task.counts_of_beginning rfl hevents

/-- A group whose call has started and not ended is on a worker. -/
theorem Begun.running_of_open (hb : b.Begun s specs mode startedAt start)
    (hline : ∃ pool next, start.InLine pool next) (h : Course.Runs b.ledger start acts later)
    {g : Nat} (hg : g < b.config.iterations)
    (hopen : (Program.events (Act.ofGroup g acts)).countP Event.isOutcome <
      (Program.events (Act.ofGroup g acts)).countP Event.isStart) :
    later.isRunning g = true := by
  have hacted : Act.ofGroup g acts ≠ [] := by
    intro hnil
    rw [hnil] at hopen
    exact Nat.not_lt_zero _ hopen
  refine (h.holding_of_acted hline hacted).resolve_right fun hdone => ?_
  -- A group that is done has reported its end, and so no call of it is open.
  have hend := hb.isGroupEnd_of_isDone h hg hdone
  have hsteady := (hb.steady h hg).open_le
  omega

/-- The groups with a call under way are no more than the workers. -/
theorem Begun.countP_open_le (hb : b.Begun s specs mode startedAt start)
    (hline : ∃ pool next, start.InLine pool next) (h : Course.Runs b.ledger start acts later) :
    ((List.range b.config.iterations).countP fun g =>
      (Program.events (Act.ofGroup g acts)).countP Event.isOutcome <
        (Program.events (Act.ofGroup g acts)).countP Event.isStart) ≤
      max b.config.concurrency 1 := by
  obtain ⟨pool, next, hpool⟩ := h.in_line hline
  rw [List.countP_eq_length_filter, ← (h.staffed hb.staffed).length_workers hpool.pools]
  refine Course.length_running_le hpool.pools (List.nodup_range.filter _) fun g hg => ?_
  obtain ⟨hmem, hlt⟩ := List.mem_filter.mp hg
  exact hb.running_of_open hline h (List.mem_range.mp hmem) (of_decide_eq_true hlt)

/-- What some events of a run of so many groups add up to. -/
structure Bounded (groups entries concurrency : Nat) (events : List Event) : Prop where
  outcomes_le : (outcomes events).length ≤ events.countP Event.isStart
  starts_le : events.countP Event.isStart ≤ groups * entries
  ends_le : events.countP Event.isGroupEnd ≤ groups
  open_le : events.countP Event.isStart ≤ (outcomes events).length + concurrency
  open_le_groups :
    events.countP Event.isStart + events.countP Event.isGroupEnd ≤ (outcomes events).length + groups

/-- What all groups have reported so far. -/
theorem Begun.bounded_acts (hb : b.Begun s specs mode startedAt start)
    (hline : ∃ pool next, start.InLine pool next) (h : Course.Runs b.ledger start acts later) :
    Bounded b.config.iterations specs.length (max b.config.concurrency 1) (Act.events acts) := by
  have hlt : ∀ a ∈ acts, a.group < b.config.iterations := hb.length_groups ▸ h.group_lt
  -- How many events of a kind a group has reported, and all groups together.
  let count : (Event → Bool) → Nat → Nat :=
    fun p g => (Program.events (Act.ofGroup g acts)).countP p
  have hall : ∀ p, (Act.events acts).countP p =
      ((List.range b.config.iterations).map (count p)).sum := Act.countP_events hlt
  have hsteady : ∀ g ∈ List.range b.config.iterations,
      Event.Steady specs.length (Program.events (Act.ofGroup g acts)) :=
    fun g hg => hb.steady h (List.mem_range.mp hg)
  have hsum : ∀ {f k : Nat → Nat} {n : Nat}, (∀ g ∈ List.range b.config.iterations, f g ≤ k g + n) →
      ((List.range b.config.iterations).map f).sum ≤ ((List.range b.config.iterations).map k).sum +
        b.config.iterations * n := by
    intro f k n hle
    have h := sum_le_add_mul hle
    rwa [List.length_range] at h
  have hzero : ((List.range b.config.iterations).map fun _ => 0).sum = 0 := by simp
  refine ⟨?_, ?_, ?_, ?_, ?_⟩
  all_goals simp only [length_outcomes, hall]
  · exact hsum (n := 0) fun g hg => (hsteady g hg).outcomes_le
  · have hle :=
      hsum (k := fun _ => 0) fun g hg => Nat.le_trans (hsteady g hg).starts_le (Nat.le_add_left _ _)
    rwa [hzero, Nat.zero_add] at hle
  · have hle :=
      hsum (k := fun _ => 0) fun g hg => Nat.le_trans (hsteady g hg).ends_le (Nat.le_add_left _ _)
    rwa [hzero, Nat.zero_add, Nat.mul_one] at hle
  · have hopen := sum_le_add_countP fun g hg => Nat.le_of_add_right_le (hsteady g hg).open_le
    exact Nat.le_trans hopen (Nat.add_le_add_left (hb.countP_open_le hline h) _)
  · have hle := hsum (f := fun g => count Event.isStart g + count Event.isGroupEnd g) fun g hg =>
      (hsteady g hg).open_le
    rwa [List.sum_map_add, Nat.mul_one] at hle

/-- What has been recorded at any time is what had been reported at an earlier one. -/
theorem Begun.bounded_taken (hb : b.Begun s specs mode startedAt start)
    (hline : ∃ pool next, start.InLine pool next) (h : Course.Runs b.ledger start acts later)
    {taken waiting : List Event} (hevents : taken ++ waiting = Act.events acts) :
    Bounded b.config.iterations specs.length (max b.config.concurrency 1) taken := by
  have hmap : acts.filterMap (fun a => a.exchange.event?) = taken ++ waiting := by
    rw [hevents, Act.events, Program.events, List.filterMap_map]
    rfl
  obtain ⟨before, after, rfl, htaken, -⟩ := List.filterMap_eq_append_iff.mp hmap
  have hbefore : Act.events before = taken := by
    rw [← htaken, Act.events, Program.events, List.filterMap_map]
    rfl
  rw [← hbefore]
  cases after with
  | nil =>
    rw [List.append_nil] at h
    exact hb.bounded_acts hline h
  | cons a after =>
    obtain ⟨here, mid, hhere, -, -⟩ := h.split
    exact hb.bounded_acts hline hhere

/-- A run that begins has a number of calls that is a count. -/
theorem calls_lt_of_begin (hb : b.begin s specs mode startedAt = .ok start) :
    b.config.iterations * specs.length < Progress.countBound :=
  (begin_iff.mp ⟨start, hb⟩).calls

end Bench

/-! ## Progress -/

/-- Progress that makes sense: calls end after they have started, and those in between are no more
than the workers or the groups that have not ended. -/
structure RunStatistics.Consistent (groups entries concurrency : Nat)
    (stats : RunStatistics) : Prop where
  groups_eq : stats.groups = groups
  expected_eq : stats.progress.expected = groups * entries
  completed_le : stats.progress.succeeded + stats.progress.failed ≤ stats.progress.started
  started_le : stats.progress.started ≤ stats.progress.expected
  groupsCompleted_le : stats.groupsCompleted ≤ stats.groups
  /-- The number of calls under way is read off, and nothing is cut off at zero. -/
  inFlight? : stats.progress.inFlight? = some stats.progress.inFlight
  inFlight_eq : stats.progress.inFlight + (stats.progress.succeeded + stats.progress.failed) =
    stats.progress.started
  inFlight_le : stats.progress.inFlight ≤ concurrency
  inFlight_le_groups : stats.progress.inFlight + stats.groupsCompleted ≤ stats.groups

theorem Bench.Bounded.consistent {groups entries concurrency : Nat} {taken : List Event}
    (h : Bench.Bounded groups entries concurrency taken)
    (hcount : groups * entries < Progress.countBound) (run : RunId) (workers : Nat)
    (startedAt : Timestamp) :
    ((RunStatistics.new run groups entries workers startedAt).recordAll taken).Consistent groups
      entries concurrency := by
  obtain ⟨houtcomes, hstarts, hends, hopen, hgroups⟩ := h
  have hsplit := length_isOk_add_failures (outcomes taken)
  have hcompleted : ((outcomes taken).filter Outcome.isOk).length +
      ((outcomes taken).filterMap Outcome.failure?).length
      < Progress.countBound := by omega
  rw [RunStatistics.recordAll_eq]
  constructor
  all_goals
    simp only [RunStatistics.withOutcomes, RunStatistics.new, RunStatistics.progress,
      Progress.inFlight?, Progress.completed?, Progress.inFlight, Progress.completed, Nat.zero_add,
      List.nil_append, if_pos hcompleted, Option.map_some]
  all_goals omega

/-- One progress comes before another of the same run. -/
structure Progress.Precedes (p q : Progress) : Prop where
  expected : q.expected = p.expected
  started : p.started ≤ q.started
  succeeded : p.succeeded ≤ q.succeeded
  failed : p.failed ≤ q.failed

namespace Progress.Precedes

variable {p q r : Progress}

theorem refl (p : Progress) : p.Precedes p := ⟨rfl, Nat.le_refl _, Nat.le_refl _, Nat.le_refl _⟩

theorem trans (h : p.Precedes q) (h' : q.Precedes r) : p.Precedes r :=
  ⟨h'.expected.trans h.expected, Nat.le_trans h.started h'.started,
    Nat.le_trans h.succeeded h'.succeeded,
    Nat.le_trans h.failed h'.failed⟩

end Progress.Precedes

theorem RunStatistics.precedes_record (s : RunStatistics) (event : Event) :
    s.progress.Precedes (s.record event).progress := by
  cases event with
  | started task function => exact ⟨rfl, Nat.le_succ _, Nat.le_refl _, Nat.le_refl _⟩
  | groupCompleted group members attempts error => exact .refl _
  | completed o =>
    show s.progress.Precedes (s.recordOutcome o).progress
    unfold recordOutcome
    cases o.error with
    | none => exact ⟨rfl, Nat.le_refl _, Nat.le_succ _, Nat.le_refl _⟩
    | some error =>
      refine ⟨rfl, Nat.le_refl _, Nat.le_refl _, ?_⟩
      simp [progress]

namespace Course

variable {σ : Type} {ledger : Ledger σ} {c later : Course σ} {acts : List Act}

theorem Step.precedes (h : Step ledger c acts later) :
    c.statistics.progress.Precedes later.statistics.progress := by
  cases h with
  | submit hmay =>
    rw [submitNext_statistics]
    exact .refl _
  | work ha he => exact .refl _
  | send hg hcall hr => exact .refl _
  | act service hg hserves hr => exact .refl _
  | record hr => exact c.statistics.precedes_record _
  | wait clock => exact .refl _

/-! ## Snapshots -/

/-- The snapshots that a reporter hands out while a run follows a schedule, with some time before
each step. -/
def snapshots (ledger : Ledger σ) (c : Course σ) (r : ProgressReporter) :
    List (Duration × RunLabel) → List Progress
  | [] => []
  | (time, label) :: rest =>
    let (taken, r) := r.advance time c.statistics
    match c.step ledger label with
    | some later => taken ++ later.snapshots ledger r rest
    | none => taken

/-- What a reporter hands out at one time is the progress at that time. -/
theorem eq_of_mem_advance {r : ProgressReporter} {time : Duration} {s : RunStatistics}
    {p : Progress} (h : p ∈ (r.advance time s).1) : p = s.progress := by
  unfold ProgressReporter.advance at h
  dsimp only at h
  split at h
  · cases h
  · exact List.eq_of_mem_replicate h

/-- Every snapshot is the progress at a time that the schedule comes to. -/
theorem exists_run_of_mem_snapshots {r : ProgressReporter} {schedule : List (Duration × RunLabel)}
    {p : Progress} (h : p ∈ c.snapshots ledger r schedule) :
    ∃ labels later, c.run ledger labels = some later ∧ p = later.statistics.progress := by
  induction schedule generalizing c r with
  | nil => cases h
  | cons entry rest ih =>
    obtain ⟨time, label⟩ := entry
    unfold snapshots at h
    dsimp only at h
    split at h
    · rename_i mid hstep
      rcases List.mem_append.mp h with hnow | hlater
      · exact ⟨[], c, rfl, eq_of_mem_advance hnow⟩
      · obtain ⟨labels, later, hrun, hp⟩ := ih hlater
        refine ⟨label :: labels, later, ?_, hp⟩
        unfold run at hrun ⊢
        rw [List.foldlM_cons, hstep]
        exact hrun
    · exact ⟨[], c, rfl, eq_of_mem_advance h⟩

theorem Runs.precedes (h : Runs ledger c acts later) :
    c.statistics.progress.Precedes later.statistics.progress :=
  h.preserves (P := fun d => c.statistics.progress.Precedes d.statistics.progress)
    (fun head hc => hc.trans head.precedes) (.refl _)

/-- A later snapshot shows no less than an earlier one. -/
theorem pairwise_snapshots (ledger : Ledger σ) (c : Course σ) (r : ProgressReporter)
    (schedule : List (Duration × RunLabel)) :
    (c.snapshots ledger r schedule).Pairwise Progress.Precedes := by
  have now : ∀ {c : Course σ} {r : ProgressReporter} {time : Duration},
      ((r.advance time c.statistics).1).Pairwise Progress.Precedes := by
    intro c r time
    refine List.pairwise_of_forall_mem_list fun p hp q hq => ?_
    rw [eq_of_mem_advance hp, eq_of_mem_advance hq]
    exact .refl _
  induction schedule generalizing c r with
  | nil => exact .nil
  | cons entry rest ih =>
    obtain ⟨time, label⟩ := entry
    unfold snapshots
    dsimp only
    split
    · rename_i mid hstep
      refine List.pairwise_append.mpr ⟨now, ih mid _, fun p hp q hq => ?_⟩
      obtain ⟨labels, later, hrun, rfl⟩ := exists_run_of_mem_snapshots hq
      rw [eq_of_mem_advance hp]
      exact (step_cases hstep).precedes.trans (runs_of_run hrun).precedes
    · exact now

end Course

namespace Bench

variable {σ : Type} {b : Bench σ} {s : Session σ} {specs : List CallSpec} {mode : CallMode}
  {startedAt : Timestamp} {start : Course σ}

/-- Progress is consistent at any time of a run, whatever the schedule and the ledger, and it is
never less than what was handed out before. -/
theorem consistent_of_run {p : BenchPlan σ} (hp : p.build = .ok b)
    (hb : b.begin s specs mode startedAt = .ok start) :
    (∀ labels later, start.run b.ledger labels = some later →
      later.statistics.Consistent b.config.iterations specs.length b.config.concurrency) ∧
    ∀ (r : ProgressReporter) (schedule : List (Duration × RunLabel)),
      (start.snapshots b.ledger r schedule).Pairwise Progress.Precedes ∧
      ∀ progress ∈ start.snapshots b.ledger r schedule, ∃ labels later,
        start.run b.ledger labels = some later ∧ progress = later.statistics.progress := by
  obtain ⟨hlimits, hroom⟩ := BenchPlan.limits_of_build hp
  have hbegun := begun_of_begin hb
  refine ⟨fun labels later hr => ?_, fun r schedule =>
    ⟨Course.pairwise_snapshots b.ledger start r schedule, fun progress hmem =>
    Course.exists_run_of_mem_snapshots hmem⟩⟩
  have hruns := Course.runs_of_run hr
  obtain ⟨taken, htaken, hstatistics⟩ := hruns.recorded
  have hempty : start.world.events = [] := by
    rw [hbegun.world]
    rfl
  rw [hempty, List.nil_append] at htaken
  have hstaff : max b.config.concurrency 1 = b.config.concurrency :=
    Nat.max_eq_left (hlimits .concurrency)
  have hbounded := hbegun.bounded_taken (in_line_of_begin hroom hb) hruns htaken
  rw [hstaff] at hbounded
  rw [hstatistics, hbegun.statistics]
  exact hbounded.consistent (calls_lt_of_begin hb) _ _ _

/-! ### Two calls under way -/

def pairPlan : BenchPlan Nat where
  config := pair.config
  ledger := some recovering
  handlers := some []

/-- A schedule that records the starts of both calls before either of them ends. -/
def watched : List RunLabel := turns.take 12 ++ [.record, .record] ++ (turns.drop 12).take 14

/-- The schedule with the time that each step takes, for a reporter that looks after every ninth. -/
def timed : List (Duration × RunLabel) := watched.map fun label => (⟨1⟩, label)

def observer : ProgressReporter where
  interval := ⟨9⟩

/-- The reporter looks before the calls start, while both are under way, and when one has panicked
and the other one committed. -/
def seen : List Progress := [⟨2, 0, 0, 0⟩, ⟨2, 2, 0, 0⟩, ⟨2, 2, 1, 1⟩]

theorem consistent_of_run_watched :
    ∃ start later, pairPlan.build = .ok pair ∧
      pair.begin fresh [{ function := "put" }] .submit ⟨0⟩ = .ok start ∧
      start.run pair.ledger watched = some later ∧ later.statistics.Consistent 2 1 2 ∧
      start.snapshots pair.ledger observer timed = seen ∧ seen.Pairwise Progress.Precedes := by
  have hbuild : pairPlan.build = .ok pair :=
    BenchPlan.build_of_checkConfig rfl rfl (by decide +kernel)
  have hrun : ∃ start, pair.begin fresh [{ function := "put" }] .submit ⟨0⟩ = .ok start ∧
      ∃ later, start.run pair.ledger watched = some later ∧
          start.snapshots pair.ledger observer timed = seen := by
    refine ⟨_, rfl, ?_⟩
    apply exists_of_any
    decide +kernel
  obtain ⟨start, hb, later, hr, hseen⟩ := hrun
  obtain ⟨hconsistent, hsnapshots⟩ := consistent_of_run hbuild hb
  exact ⟨start, later, hbuild, hb, hr, hconsistent watched later hr, hseen,
    hseen ▸ (hsnapshots observer timed).1⟩

end Bench

end LedgerBench
