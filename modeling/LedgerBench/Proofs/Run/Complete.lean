import LedgerBench.Proofs.Run.Tally
import LedgerBench.Proofs.Run.Workers
import LedgerBench.Proofs.Task.Group
/-!
Runs that are complete.

A run ends when it has recorded the end of every group. That this is the end of everything else too
is not a matter of one step: a group reports its end once and as the last thing it does, and events
are recorded in the order in which they were reported. What is proved:
  1. `Begun.group_after`: at any time, what a group has exchanged is the beginning of invocations of
     its calls and its report.
  2. `Begun.complete`: once as many ends are recorded as there are groups, every group has done all
     of this, no event is left to be recorded, and no group was refused.
  3. `Complete.tasks_perm`, `Complete.totalAttempts_eq`: its outcomes are those of the calls of the
     batch, each once for each iteration, and the groups have counted their attempts.
-/

namespace LedgerBench

open Program

/-! ## Groups of a run -/

/-- The calls of a group with identifiers from the given number on. -/
def groupCalls (ids : IdSource) (first : Nat) (specs : List CallSpec) : List CallTask :=
  specs.mapIdx fun i spec => { id := ⟨ids (first + i)⟩, spec }

theorem groupTask_eq (ids : IdSource) (first : Nat) (specs : List CallSpec) :
    groupTask ids first specs = .group ⟨ids (first + specs.length)⟩ false
      ((groupCalls ids first specs).map .call) := by
  have hmembers : (groupCalls ids first specs).map Task.call
      = specs.mapIdx fun i spec => .call { id := ⟨ids (first + i)⟩, spec } := by
    apply List.ext_getElem?
    intro i
    simp only [groupCalls, List.getElem?_map, List.getElem?_mapIdx, Option.map_map]
    rfl
  rw [hmembers]
  rfl

theorem calls_groupTask (ids : IdSource) (first : Nat) (specs : List CallSpec) :
    (groupTask ids first specs).calls = groupCalls ids first specs := by
  rw [groupTask_eq]
  exact Task.callsOf_map_call _

theorem length_groupCalls (ids : IdSource) (first : Nat) (specs : List CallSpec) :
    (groupCalls ids first specs).length = specs.length := List.length_mapIdx

namespace Bench

variable {σ : Type} {b : Bench σ} {s : Session σ} {specs : List CallSpec} {mode : CallMode}
  {startedAt : Timestamp} {start later : Course σ} {acts : List Act}

def firstOf (s : Session σ) (specs : List CallSpec) (group : Nat) : Nat :=
  s.drawn + 1 + group * (specs.length + 1)

def callsOf (s : Session σ) (specs : List CallSpec) (group : Nat) : List CallTask :=
  groupCalls s.ids (firstOf s specs group) specs

theorem calls_groupTasks (b : Bench σ) (s : Session σ) (specs : List CallSpec) :
    (b.groupTasks s.ids (s.drawn + 1) specs).flatMap Task.calls
      = (List.range b.config.iterations).flatMap fun g => callsOf s specs g := by
  rw [groupTasks, List.flatMap_map]
  simp only [calls_groupTask]
  rfl

namespace Begun

theorem group_of_lt (hb : b.Begun s specs mode startedAt start) {g : Nat}
    (hg : g < b.config.iterations) :
    ∃ id, start.groups[g]? =
      some { todo := (Task.group id false ((callsOf s specs g).map .call)).runIsolated
               (b.binding mode) } := by
  refine ⟨⟨s.ids (firstOf s specs g + specs.length)⟩, ?_⟩
  rw [hb.groups, List.getElem?_map, groupTasks, List.getElem?_map, List.getElem?_range hg,
    Option.map_some, Option.map_some, groupTask_eq]
  rfl

/-- What a group has exchanged is the beginning of invocations of its calls and its report. Where
nothing is missing, the group is done. -/
theorem group_after (hb : b.Begun s specs mode startedAt start)
    (h : Course.Runs b.ledger start acts later) {g : Nat} (hg : g < b.config.iterations) :
    ∃ (id : TaskId) (is : List (Invocation (b.binding mode))) (rest : List Exchange),
      is.map Invocation.call = callsOf s specs g ∧
      Act.ofGroup g acts ++ rest = is.flatMap Invocation.exchanges ++ [Task.groupReport id is] ∧
      (rest = [] → ∃ g', later.groups[g]? = some g' ∧
          g'.todo = .done (.group id true (is.map fun i => .call i.after))) := by
  obtain ⟨id, hstart⟩ := hb.group_of_lt hg
  obtain ⟨g', hlater, hafter⟩ := h.after hstart
  obtain ⟨is, rest, hcalls, hxs, hdone⟩ := Task.after_runIsolated_group hafter
  exact ⟨id, is, rest, hcalls, hxs, fun hrest => ⟨g', hlater, hdone hrest⟩⟩

end Begun

/-! ## The last event -/

/-- What each group of a complete run has exchanged: the invocations of its calls, and the report of
its end. -/
structure Finished (b : Bench σ) (s : Session σ) (specs : List CallSpec) (mode : CallMode)
    (acts : List Act) (later : Course σ) (g : Nat) (is : List (Invocation (b.binding mode))) :
    Prop where
  calls : is.map Invocation.call = callsOf s specs g
  exchanges : ∃ id, Act.ofGroup g acts = is.flatMap Invocation.exchanges ++ [Task.groupReport id is]
  attempts : (later.groups[g]?.map GroupCourse.attempts) =
    some ((is.map Invocation.outcome).map Outcome.attempts).sum

/-- Where every group has come to its end, the last event is the end of a group. -/
theorem isGroupEnd_of_last {n : Nat} (hlt : ∀ a ∈ acts, a.group < n)
    (hfinished : ∀ g, g < n → ∃ is, b.Finished s specs mode acts later g is) {before : List Event}
    {last : Event} (hlast : Act.events acts = before ++ [last]) : last.isGroupEnd = true := by
  have hmap : acts.filterMap (fun a => a.exchange.event?) = before ++ [last] := by
    rw [← hlast, Act.events, Program.events, List.filterMap_map]
    rfl
  -- The exchange `a` that made the event; those after it report nothing.
  obtain ⟨l1, l2, rfl, -, hl2⟩ := List.filterMap_eq_append_iff.mp hmap
  obtain ⟨m1, a, m2, rfl, -, ha, hm2⟩ := List.filterMap_eq_cons_iff.mp hl2
  have hsilent : ∀ x ∈ Act.ofGroup a.group m2, x.event? = none := by
    intro x hx
    obtain ⟨a', ha', rfl⟩ := List.mem_map.mp hx
    exact List.filterMap_eq_nil_iff.mp hm2 a' (List.mem_filter.mp ha').1
  obtain ⟨is, h⟩ := hfinished a.group (hlt a (by simp))
  obtain ⟨id, hxs⟩ := h.exchanges
  have hsplit : Act.ofGroup a.group (l1 ++ (m1 ++ a :: m2))
      = Act.ofGroup a.group l1 ++ Act.ofGroup a.group m1 ++
        a.exchange :: Act.ofGroup a.group m2 := by
    rw [Act.ofGroup_append, Act.ofGroup_append, List.append_assoc]
    congr 2
    simp [Act.ofGroup]
  rw [hsplit] at hxs
  -- The group's report is its last exchange and is not silent, so it is the exchange that made the
  -- event.
  have hreport : a.exchange = Task.groupReport id is := by
    rcases List.eq_nil_or_concat (Act.ofGroup a.group m2) with hnil | ⟨most, x, hconcat⟩
    · rw [hnil] at hxs
      obtain ⟨-, hx⟩ := List.append_inj' hxs rfl
      exact (List.cons.inj hx).1
    · exfalso
      rw [hconcat, List.concat_eq_append, ← List.cons_append, ← List.append_assoc] at hxs
      obtain ⟨-, hx⟩ := List.append_inj' hxs rfl
      have hx' := hsilent x (by rw [hconcat]; simp)
      rw [(List.cons.inj hx).1] at hx'
      cases hx'
  rw [hreport] at ha
  obtain rfl := Option.some.inj ha
  rfl

/-! ## Complete runs -/

/-- Numbers that are one at most and add up to as much as they can are one. -/
theorem sum_of_le_one {l : List Nat} (hle : ∀ x ∈ l, x ≤ 1) :
    l.sum ≤ l.length ∧ (l.length ≤ l.sum → ∀ x ∈ l, x = 1) := by
  induction l with
  | nil => simp
  | cons x rest ih =>
    obtain ⟨hx, hrest⟩ := List.forall_mem_cons.mp hle
    obtain ⟨hmost, hones⟩ := ih hrest
    rw [List.sum_cons, List.length_cons]
    refine ⟨by omega, fun hsum => List.forall_mem_cons.mpr ⟨by omega, hones (by omega)⟩⟩

/-- What a complete run comes to. -/
structure Complete (b : Bench σ) (s : Session σ) (specs : List CallSpec) (mode : CallMode)
    (start : Course σ) (acts : List Act) (later : Course σ) : Prop where
  numbered : ∀ a ∈ acts, a.group < b.config.iterations
  groups : later.groups.length = b.config.iterations
  finished : ∀ g, g < b.config.iterations → ∃ is, b.Finished s specs mode acts later g is
  drained : later.world.events = []
  ends : (Act.events acts).countP Event.isGroupEnd = b.config.iterations
  statistics : later.statistics = start.statistics.recordAll (Act.events acts)
  accepted : later.rejected = none

namespace Begun

/-- As many ends as there are groups are one of each group, and so every group has finished. -/
theorem finished_of_ends (hb : b.Begun s specs mode startedAt start)
    (h : Course.Runs b.ledger start acts later) :
    (Act.events acts).countP Event.isGroupEnd ≤ b.config.iterations ∧
      (b.config.iterations ≤ (Act.events acts).countP Event.isGroupEnd →
        ∀ g, g < b.config.iterations → ∃ is, b.Finished s specs mode acts later g is) := by
  have hlt : ∀ a ∈ acts, a.group < b.config.iterations := hb.length_groups ▸ h.group_lt
  -- The ends that each group has reported.
  let ends : Nat → Nat := fun g => (Program.events (Act.ofGroup g acts)).countP Event.isGroupEnd
  have hall : (Act.events acts).countP Event.isGroupEnd =
      ((List.range b.config.iterations).map ends).sum :=
    Act.countP_events hlt Event.isGroupEnd
  have hle : ∀ x ∈ (List.range b.config.iterations).map ends, x ≤ 1 := by
    intro x hx
    obtain ⟨g, hg, rfl⟩ := List.mem_map.mp hx
    obtain ⟨id, is, rest, -, hxs, -⟩ := hb.group_after h (List.mem_range.mp hg)
    exact (Task.countP_isGroupEnd_le hxs).1
  obtain ⟨hsum, hones⟩ := sum_of_le_one hle
  rw [List.length_map, List.length_range] at hsum hones
  rw [hall]
  refine ⟨hsum, fun hends g hg => ?_⟩
  obtain ⟨id, is, rest, hcalls, hxs, hdone⟩ := hb.group_after h hg
  have hone : ends g = 1 := hones hends (ends g) (List.mem_map_of_mem (List.mem_range.mpr hg))
  obtain rfl := (Task.countP_isGroupEnd_le hxs).2 hone
  obtain ⟨g', hg', htodo⟩ := hdone rfl
  rw [List.append_nil] at hxs
  refine ⟨is, hcalls, ⟨id, hxs⟩, ?_⟩
  rw [hg', Option.map_some, GroupCourse.attempts, htodo, ← Task.attempts_group id is]

/-- A group that has reported its end has nothing left to do. -/
theorem isDone_of_finished (hb : b.Begun s specs mode startedAt start)
    (h : Course.Runs b.ledger start acts later) {g : Nat} (hg : g < b.config.iterations)
    {is : List (Invocation (b.binding mode))} (hf : b.Finished s specs mode acts later g is) :
    ∃ g', later.groups[g]? = some g' ∧ g'.isDone = true := by
  obtain ⟨id, is', rest, -, hbegun, hdone⟩ := hb.group_after h hg
  obtain ⟨id', hxs⟩ := hf.exchanges
  have hreported : 0 < (Program.events (Act.ofGroup g acts)).countP Event.isGroupEnd := by
    rw [hxs, Program.events_append, List.countP_append]
    exact Nat.lt_add_left _ Nat.one_pos
  obtain ⟨hmost, hrest⟩ := Task.countP_isGroupEnd_le hbegun
  obtain ⟨g', hg', htodo⟩ := hdone (hrest (Nat.le_antisymm hmost hreported))
  exact ⟨g', hg', GroupCourse.isDone_iff.mpr ⟨_, htodo⟩⟩

/-- A run that was refused a group has a group that never acted. -/
theorem accepted_of_finished (hb : b.Begun s specs mode startedAt start)
    (h : Course.Runs b.ledger start acts later)
    (hfinished : ∀ g, g < b.config.iterations → ∃ is, b.Finished s specs mode acts later g is) :
    later.rejected = none := by
  have hlater := h.staffed hb.staffed
  cases hrejected : later.rejected with
  | none => rfl
  | some refusal =>
    have hmissing := hlater.refused (by rw [hrejected]; rfl)
    rw [h.groups_length, hb.length_groups] at hmissing
    obtain ⟨is, hf⟩ := hfinished later.submitted hmissing
    obtain ⟨id, hxs⟩ := hf.exchanges
    have hreport : Task.groupReport id is ∈ Act.ofGroup later.submitted acts := by
      rw [hxs]
      exact List.mem_append_right _ (List.mem_singleton_self _)
    obtain ⟨a, ha, -⟩ := List.mem_map.mp hreport
    obtain ⟨hmem, hgroup⟩ := List.mem_filter.mp ha
    have hacted := h.act_lt hb.staffed a hmem
    rw [of_decide_eq_true hgroup] at hacted
    exact absurd hacted (Nat.lt_irrefl _)

/-- A run that has recorded as many ends as it has groups is complete. -/
theorem complete (hb : b.Begun s specs mode startedAt start)
    (h : Course.Runs b.ledger start acts later)
    (hends : start.groups.length ≤ later.statistics.groupsCompleted) :
    b.Complete s specs mode start acts later := by
  have hn := hb.length_groups
  have hlt : ∀ a ∈ acts, a.group < b.config.iterations := hn ▸ h.group_lt
  obtain ⟨taken, htaken, hstatistics⟩ := h.recorded
  have hempty : start.world.events = [] := by
    rw [hb.world]
    rfl
  rw [hempty, List.nil_append] at htaken
  have hrecorded : later.statistics.groupsCompleted = taken.countP Event.isGroupEnd := by
    rw [hstatistics, RunStatistics.recordAll_eq, hb.statistics]
    exact Nat.zero_add _
  have hsplit : (Act.events acts).countP Event.isGroupEnd
      = taken.countP Event.isGroupEnd + later.world.events.countP Event.isGroupEnd := by
    rw [← htaken, List.countP_append]
  obtain ⟨hmost, hfinished⟩ := hb.finished_of_ends h
  replace hfinished := hfinished (by omega)
  -- All ends were recorded, so what is still in the channel has none; but the last event of all is
  -- one.
  have hdrained : later.world.events = [] := by
    rcases List.eq_nil_or_concat later.world.events with hnil | ⟨most, last, hconcat⟩
    · exact hnil
    · exfalso
      rw [hconcat, List.concat_eq_append] at htaken hsplit
      have hevents : Act.events acts = taken ++ most ++ [last] := by
        rw [← htaken, List.append_assoc]
      have hlast := isGroupEnd_of_last hlt hfinished hevents
      rw [List.countP_append, List.countP_cons_of_pos hlast] at hsplit
      omega
  refine ⟨hlt, h.groups_length.trans hn, hfinished, hdrained, by omega, ?_,
    hb.accepted_of_finished h hfinished⟩
  rw [hdrained, List.append_nil] at htaken
  rw [hstatistics, htaken]

end Begun

/-! ## What a complete run adds up to -/

namespace Complete

/-- The invocations of all groups at once. -/
theorem exists_finished (h : b.Complete s specs mode start acts later) :
    ∃ is : Nat → List (Invocation (b.binding mode)), ∀ g, g < b.config.iterations →
      b.Finished s specs mode acts later g (is g) := by
  have hchoice : ∀ g, ∃ is, g < b.config.iterations → b.Finished s specs mode acts later g is := by
    intro g
    by_cases hg : g < b.config.iterations
    · obtain ⟨is, hf⟩ := h.finished g hg
      exact ⟨is, fun _ => hf⟩
    · exact ⟨[], fun hg' => absurd hg' hg⟩
  exact Classical.skolem.mp hchoice

/-- The outcomes of a complete run are those of its calls' invocations, each once. -/
theorem outcomes_perm (h : b.Complete s specs mode start acts later) :
    ∃ is : Nat → List (Invocation (b.binding mode)),
      (∀ g, g < b.config.iterations → b.Finished s specs mode acts later g (is g)) ∧
      (outcomes (Act.events acts)).Perm
        ((List.range b.config.iterations).flatMap fun g => (is g).map Invocation.outcome) ∧
      (Act.events acts).countP Event.isStart =
        ((List.range b.config.iterations).map fun g => (is g).length).sum := by
  obtain ⟨is, his⟩ := h.exists_finished
  have hevents : ∀ g ∈ List.range b.config.iterations, ∃ id attempts error,
      Program.events (Act.ofGroup g acts)
        = (is g).flatMap Invocation.reports ++
          [.groupCompleted id (is g).length attempts error] := by
    intro g hg
    obtain ⟨id, hxs⟩ := (his g (List.mem_range.mp hg)).exchanges
    obtain ⟨attempts, error, hreports⟩ := Task.events_group (is g) id
    exact ⟨id, attempts, error, hxs ▸ hreports⟩
  refine ⟨is, his, ?_, ?_⟩
  · refine (Act.outcomes_perm h.numbered).trans (List.Perm.of_eq (List.flatMap_congr ?_))
    intro g hg
    obtain ⟨id, attempts, error, hg'⟩ := hevents g hg
    rw [hg', outcomes_append, Task.outcomes_reports]
    exact List.append_nil _
  · rw [Act.countP_events h.numbered]
    refine congrArg List.sum (List.map_congr_left ?_)
    intro g hg
    obtain ⟨id, attempts, error, hg'⟩ := hevents g hg
    rw [hg', List.countP_append, Task.countP_isStart_reports]
    rfl

theorem tasks_perm (h : b.Complete s specs mode start acts later) :
    ((outcomes (Act.events acts)).map Outcome.task).Perm
      (((b.groupTasks s.ids (s.drawn + 1) specs).flatMap Task.calls).map CallTask.id) := by
  obtain ⟨is, his, hout, -⟩ := h.outcomes_perm
  refine (hout.map Outcome.task).trans (List.Perm.of_eq ?_)
  rw [calls_groupTasks, List.map_flatMap, List.map_flatMap]
  refine List.flatMap_congr ?_
  intro g hg
  rw [← (his g (List.mem_range.mp hg)).calls, List.map_map, List.map_map]
  rfl

theorem length_outcomes (h : b.Complete s specs mode start acts later) :
    (outcomes (Act.events acts)).length = b.config.iterations * specs.length := by
  have hlength := h.tasks_perm.length_eq
  rw [List.length_map, List.length_map, calls_groupTasks, List.length_flatMap] at hlength
  rw [hlength]
  simp [callsOf, length_groupCalls]

theorem countP_isStart (h : b.Complete s specs mode start acts later) :
    (Act.events acts).countP Event.isStart = b.config.iterations * specs.length := by
  obtain ⟨is, his, -, hstarts⟩ := h.outcomes_perm
  have hlength : ∀ g ∈ List.range b.config.iterations, (is g).length = specs.length := by
    intro g hg
    have hcalls := congrArg List.length (his g (List.mem_range.mp hg)).calls
    rwa [List.length_map, callsOf, length_groupCalls] at hcalls
  rw [hstarts, List.map_congr_left hlength]
  simp

/-- The groups count the attempts of the outcomes. -/
theorem totalAttempts_eq (h : b.Complete s specs mode start acts later) :
    later.totalAttempts = ((outcomes (Act.events acts)).map Outcome.attempts).sum := by
  obtain ⟨is, his, hout, -⟩ := h.outcomes_perm
  have hgroups : later.groups.map GroupCourse.attempts
      = (List.range b.config.iterations).map fun g =>
        (((is g).map Invocation.outcome).map Outcome.attempts).sum := by
    apply List.ext_getElem?
    intro g
    rw [List.getElem?_map, List.getElem?_map]
    by_cases hg : g < b.config.iterations
    · rw [(his g hg).attempts, List.getElem?_range hg]
      rfl
    · rw [List.getElem?_eq_none (by rw [h.groups]; omega),
        List.getElem?_eq_none (by rw [List.length_range]; omega)]
      rfl
  rw [Course.totalAttempts, hgroups, ((hout.map Outcome.attempts).sum_nat), List.map_flatMap]
  generalize List.range b.config.iterations = groups
  induction groups with
  | nil => rfl
  | cons g rest ih =>
    rw [List.map_cons, List.sum_cons, ih, List.flatMap_cons, List.sum_append]

end Complete

end Bench

end LedgerBench
