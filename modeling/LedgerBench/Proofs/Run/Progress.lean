import LedgerBench.Proofs.Run.Complete
import LedgerBench.Proofs.Run.Queue
import Mathlib.Algebra.BigOperators.Group.List.Basic
/-!
Runs that come to an end.

Every schedule is finite, so what is left to show is that a run in which nothing can happen any more
has done everything. What is proved:
  1. `Quiet.isDone`: where no step is possible, every group was submitted and is done, since a
     group, a worker or an event that is still under way makes a step possible.
  2. `exists_run_drive`: `drive` follows a schedule until it finds no step that it may take. Where
     it tries every worker, there is none (`stopped_of_next?`).
  3. `Begun.complete_of_stopped`: a run that has stopped is complete, in whatever schedule.
-/

namespace LedgerBench

open Program

namespace Course

variable {σ : Type} {ledger : Ledger σ} {c later : Course σ} {pool : Pool Nat} {next : Nat}

/-- No step is possible. -/
def Quiet (ledger : Ledger σ) (c : Course σ) : Prop :=
  ∀ label : RunLabel, c.step ledger label = none

/-- The run is over, or no step is possible. -/
def Stopped (ledger : Ledger σ) (c : Course σ) : Prop := c.isOver = true ∨ c.Quiet ledger

namespace Quiet

theorem reported_eq (h : c.Quiet ledger) : c.world.reported = [] := by
  have hrecord : c.record? = none := h .record
  unfold record? at hrecord
  split at hrecord
  · cases hrecord
  · rename_i hnone
    exact List.getLast?_eq_none_iff.mp hnone

/-- Nothing is due at a time to come. -/
theorem due_le (h : c.Quiet ledger) {t : Duration} (ht : t ∈ c.dueTimes) : t ≤ c.world.clock := by
  have hwait : c.wait? = none := h .wait
  unfold wait? at hwait
  split at hwait
  · rename_i hnil
    refine Nat.le_of_not_lt fun hlt => ?_
    have hmem : t ∈ c.futureTimes := List.mem_filter.mpr ⟨ht, decide_eq_true hlt⟩
    rw [hnil] at hmem
    cases hmem
  · cases hwait

theorem wakeAt_le (h : c.Quiet ledger) {group : Nat} {g : GroupCourse σ}
    (hg : c.groups[group]? = some g) : g.wakeAt ≤ c.world.clock :=
  h.due_le (List.mem_append_left _ (List.mem_map_of_mem (List.mem_of_getElem? hg)))

theorem submitted_eq (h : c.Quiet ledger) (hline : c.InLine pool next) :
    c.submitted = c.groups.length := by
  refine Nat.le_antisymm hline.submitted (Nat.le_of_not_lt fun hlt => ?_)
  have hdue : c.nextSubmission ≤ c.world.clock := by
    refine h.due_le (List.mem_append_right _ ?_)
    rw [if_pos hlt]
    exact List.mem_singleton_self _
  have hmay : c.maySubmit = true := by simp [maySubmit, hline.accepted, hlt, hdue]
  have hsubmit : (if c.maySubmit then some c.submitNext else none) = none := h .submit
  rw [if_pos hmay] at hsubmit
  cases hsubmit

/-- A worker of a quiet run can make no move of those that a run gives rise to. -/
theorem moveWorker_eq (h : c.Quiet ledger) (hline : c.InLine pool next) (worker : Nat)
    (move : WorkerMove) (ha : c.admits worker move = true) :
    pool.moveWorker? worker move = none := by
  have hwork : (if c.admits worker move then
      (c.executor.step (.work 0 worker move)).map fun executor => { c with executor } else none) =
        none := h (.work worker move)
  rw [if_pos ha, Option.map_eq_none_iff] at hwork
  unfold Executor.step at hwork
  simpa only [hline.pools, List.getElem?_cons_zero, Option.map_eq_none_iff] using hwork

/-- No group is on a worker: it would act, or its worker would leave it. -/
theorem not_running (h : c.Quiet ledger) (hline : c.InLine pool next) (group : Nat) :
    .running group ∉ pool.workers := by
  intro hmem
  have hrun : c.isRunning group = true := (isRunning_iff hline.pools group).mpr hmem
  have hlt : group < c.groups.length := by
    have := hline.begun group hmem
    have := hline.le
    have := hline.submitted
    omega
  obtain ⟨⟨todo, wakeAt, service⟩, hg⟩ : ∃ g, c.groups[group]? = some g :=
    ⟨_, List.getElem?_eq_getElem hlt⟩
  have hwake : wakeAt ≤ c.world.clock := h.wakeAt_le hg
  cases todo with
  | act effect rest =>
    have hact : c.act? ledger group = none := h (.act group)
    simp only [act?, hg, hrun, hwake, decide_true, Bool.and_self, if_true] at hact
    split at hact <;> cases hact
  | done t =>
    obtain ⟨worker, hworker⟩ := List.mem_iff_getElem?.mp hmem
    have hfinished : c.hasFinished worker = true := by
      simp [hasFinished, hline.pools, hworker, hg, GroupCourse.isDone, hwake]
    have hmove := h.moveWorker_eq hline worker .finish hfinished
    simp [Pool.moveWorker?, hworker] at hmove

/-- The queue is empty: one of the workers has the lock and would take a group from it. -/
theorem queue_eq (h : c.Quiet ledger) (hline : c.InLine pool next)
    (hstaff : 0 < c.executor.concurrency) : pool.queue = [] := by
  have hlocked : pool.isLocked = true := by
    rw [← Bool.not_eq_false]
    intro hfree
    obtain ⟨w, hw⟩ := List.exists_mem_of_length_pos (hline.staff.symm ▸ hstaff)
    obtain ⟨worker, hworker⟩ := List.mem_iff_getElem?.mp hw
    have hserves := hline.serving w hw
    cases w with
    | checking =>
      have hmove := h.moveWorker_eq hline worker .check rfl
      simp [Pool.moveWorker?, hworker] at hmove
    | waiting =>
      have hmove := h.moveWorker_eq hline worker .lock rfl
      simp [Pool.moveWorker?, hworker, hfree] at hmove
    | selecting =>
      rw [Pool.isLocked_iff.mpr hw] at hfree
      cases hfree
    | running group => exact h.not_running hline group hw
    | abandoning job reason => exact hserves.elim
    | left => exact hserves.elim
  obtain ⟨worker, hworker⟩ := List.mem_iff_getElem?.mp (Pool.isLocked_iff.mp hlocked)
  have hmove := h.moveWorker_eq hline worker .receive rfl
  cases hq : pool.queue with
  | nil => rfl
  | cons group queue => simp [Pool.moveWorker?, hworker, hq] at hmove

theorem isDone (h : c.Quiet ledger) (hline : c.InLine pool next)
    (hstaff : 0 < c.executor.concurrency) {group : Nat} (hg : group < c.groups.length) :
    c.IsDone group := by
  have hqueue := hline.queue
  rw [h.queue_eq hline hstaff] at hqueue
  have hnone : c.submitted - next = 0 := by simpa using congrArg List.length hqueue.symm
  have hnext : group < next := by
    have := h.submitted_eq hline
    omega
  exact (hline.served group hnext).resolve_left (h.not_running hline group)

end Quiet

/-! ## The schedule of a run -/

/-- Following the schedule is performing some steps. It ends where none may be taken. -/
theorem exists_run_drive (ledger : Ledger σ) (c : Course σ) :
    ∃ labels, c.run ledger labels = some (c.drive ledger) ∧
      (c.drive ledger).next? ledger = none := by
  fun_induction drive ledger c with
  | case1 c hnone => exact ⟨[], rfl, hnone⟩
  | case2 c label hnext hstep =>
    -- A step that the schedule takes is possible.
    exfalso
    unfold next? at hnext
    split at hnext
    · cases hnext
    · have hcan := List.find?_some hnext
      rw [can, hstep] at hcan
      cases hcan
  | case3 c label hnext later hstep ih =>
    obtain ⟨labels, hrun, hend⟩ := ih
    refine ⟨label :: labels, ?_, hend⟩
    unfold run at hrun ⊢
    rw [List.foldlM_cons, hstep]
    exact hrun

/-- The schedule tries every step that is possible, where it looks at every worker. -/
theorem mem_preferences {label : RunLabel} (hline : c.InLine pool next)
    (hstaff : c.executor.concurrency ≤ c.groups.length) (h : c.step ledger label = some later) :
    label ∈ c.preferences := by
  unfold preferences
  cases label with
  | submit => simp
  | record => simp
  | wait => simp
  | act group =>
    refine List.mem_append_left _ (List.mem_append_right _ ?_)
    have hact : c.act? ledger group = some later := h
    unfold act? at hact
    split at hact
    · split at hact
      · rename_i hready
        have hrun := (isRunning_iff hline.pools group).mp (Bool.and_eq_true_iff.mp hready).1
        rw [actLabels, hline.pools, List.flatMap_singleton]
        exact List.mem_filterMap.mpr ⟨_, hrun, rfl⟩
      · cases hact
    · cases hact
  | work worker move =>
    refine List.mem_append_left _ (List.mem_append_left _ (List.mem_append_right _ ?_))
    have hwork : (if c.admits worker move then
        (c.executor.step (.work 0 worker move)).map fun executor => { c with executor } else none) =
          some later := h
    split at hwork
    · rename_i ha
      obtain ⟨executor, he, -⟩ := Option.map_eq_some_iff.mp hwork
      obtain ⟨after, records, hmove, -⟩ := Executor.eq_of_work hline.pools he
      obtain ⟨w, w', queue, hw, -⟩ := moves_of_admits hline.pools hline.signal ha hmove
      obtain ⟨hlt, -⟩ := List.getElem?_eq_some_iff.mp hw
      rw [hline.staff] at hlt
      refine List.mem_flatMap.mpr ⟨worker, List.mem_range.mpr (by omega),
        List.mem_map.mpr ⟨move, ?_, rfl⟩⟩
      cases move <;> first | (cases ha; done) | simp [workMoves]
    · cases hwork

theorem stopped_of_next? (hline : c.InLine pool next)
    (hstaff : c.executor.concurrency ≤ c.groups.length) (h : c.next? ledger = none) :
    c.Stopped ledger := by
  unfold next? at h
  split at h
  · rename_i hover
    exact .inl hover
  · refine .inr fun label => ?_
    cases hstep : c.step ledger label with
    | none => rfl
    | some later =>
      have hcan := List.find?_eq_none.mp h label (mem_preferences hline hstaff hstep)
      rw [can, hstep] at hcan
      exact absurd rfl hcan

end Course

/-! ## The end of a run -/

namespace Bench

variable {σ : Type} {b : Bench σ} {s : Session σ} {specs : List CallSpec} {mode : CallMode}
  {startedAt : Timestamp} {start later : Course σ} {acts : List Act}

/-- A group that is done has reported its end. -/
theorem Begun.isGroupEnd_of_isDone (hb : b.Begun s specs mode startedAt start)
    (h : Course.Runs b.ledger start acts later) {g : Nat} (hg : g < b.config.iterations)
    (hd : later.IsDone g) : 0 < (Program.events (Act.ofGroup g acts)).countP Event.isGroupEnd := by
  obtain ⟨id, hstart⟩ := hb.group_of_lt hg
  obtain ⟨g', hlater, hafter⟩ := h.after hstart
  obtain ⟨g'', hdone, hisDone⟩ := hd
  obtain rfl : g' = g'' := Option.some.inj (hlater.symm.trans hdone)
  obtain ⟨t, ht⟩ := GroupCourse.isDone_iff.mp hisDone
  rw [ht] at hafter
  obtain ⟨is, -, hxs, -⟩ := Task.path_runIsolated_group (path_iff_after.mpr hafter)
  rw [hxs, Program.events_append, List.countP_append]
  exact Nat.lt_of_lt_of_le Nat.zero_lt_one (Nat.le_add_left _ _)

/-- Where all groups are done and all events taken, the end of every group was recorded. -/
theorem Begun.groupsCompleted_of_isDone (hb : b.Begun s specs mode startedAt start)
    (h : Course.Runs b.ledger start acts later) (hdone : ∀ g < later.groups.length, later.IsDone g)
    (hdrained : later.world.reported = []) :
    later.groups.length ≤ later.statistics.groupsCompleted := by
  have hn := h.groups_length.trans hb.length_groups
  obtain ⟨taken, htaken, hstatistics⟩ := h.recorded
  have hevents : taken = Act.events acts := by
    rw [hb.world, World.events, hdrained, List.reverse_nil, List.append_nil] at htaken
    exact htaken
  have hlt : ∀ a ∈ acts, a.group < later.groups.length := h.groups_length ▸ h.group_lt
  have hends : ∀ x ∈ (List.range later.groups.length).map fun g =>
      (Program.events (Act.ofGroup g acts)).countP Event.isGroupEnd,
      1 ≤ x := by
    intro x hx
    obtain ⟨g, hg, rfl⟩ := List.mem_map.mp hx
    have hg := List.mem_range.mp hg
    exact hb.isGroupEnd_of_isDone h (hn ▸ hg) (hdone g hg)
  have hsum := List.length_le_sum_of_one_le _ hends
  rw [List.length_map, List.length_range] at hsum
  rw [hstatistics, hb.statistics, RunStatistics.recordAll_eq, hevents, Act.countP_events hlt]
  exact Nat.le_trans hsum (Nat.le_add_left _ _)

/-- A run that has stopped is complete. -/
theorem Begun.complete_of_stopped (hb : b.Begun s specs mode startedAt start)
    (hline : ∃ pool next, start.InLine pool next) (h : Course.Runs b.ledger start acts later)
    (hstopped : later.Stopped b.ledger) : b.Complete s specs mode start acts later := by
  obtain ⟨pool, next, hpool⟩ := h.in_line hline
  refine hb.complete h ?_
  rw [← h.groups_length]
  rcases hstopped with hover | hquiet
  · rw [Course.isOver, hpool.accepted] at hover
    simpa using hover
  · have hstaff : 0 < later.executor.concurrency := by
      rw [← hpool.staff, (h.staffed hb.staffed).length_workers hpool.pools]
      omega
    exact hb.groupsCompleted_of_isDone h (fun g hg => hquiet.isDone hpool hstaff hg)
      hquiet.reported_eq

/-- The schedule of a run with as many groups as workers comes to where the run has stopped. -/
theorem Begun.exists_run_drive (hb : b.Begun s specs mode startedAt start)
    (hline : ∃ pool next, start.InLine pool next)
    (hstaff : max b.config.concurrency 1 ≤ b.config.iterations) :
    ∃ labels, start.run b.ledger labels = some (start.drive b.ledger) ∧
      (start.drive b.ledger).Stopped b.ledger := by
  obtain ⟨labels, hrun, hend⟩ := Course.exists_run_drive b.ledger start
  have hruns := Course.runs_of_run hrun
  obtain ⟨pool, next, hpool⟩ := hruns.in_line hline
  refine ⟨labels, hrun, Course.stopped_of_next? hpool ?_ hend⟩
  rw [← hpool.staff, (hruns.staffed hb.staffed).length_workers hpool.pools, hruns.groups_length,
    hb.length_groups]
  exact hstaff

end Bench

end LedgerBench
