import LedgerBench.Proofs.Task.Invocation
/-!
The exchanges of a group of calls.

A group runs its members one after the other, each of them isolated, and reports once after them.
What is proved:
  1. `invokeAll_cons`: a member that panics and one that returns are followed by the same program,
     with the member in the state its isolated run left it in.
  2. `path_runIsolated_group`: the paths of a fresh group of calls are an invocation of every call,
     in order, and then the group's report.
  3. `countP_isGroupEnd_le`: a group reports its end at most once, and is done when it did.
  4. `invocation_of_completed`: every outcome that a group has reported so far is that of a whole
     invocation.
-/

namespace LedgerBench

open Program

namespace Task

mutual

/-- The calls of a task, depth first. -/
def calls : Task → List CallTask
  | call c => [c]
  | group _ _ members => callsOf members
  | standIn _ => []

def callsOf : List Task → List CallTask
  | [] => []
  | t :: rest => calls t ++ callsOf rest

end

theorem callsOf_map_call (cs : List CallTask) : callsOf (cs.map call) = cs := by
  induction cs with
  | nil => rfl
  | cons c rest ih =>
    rw [List.map_cons, callsOf, ih]
    rfl

theorem attemptsOf_eq (ts : List Task) : attemptsOf ts = (ts.map attempts).sum := by
  induction ts with
  | nil => rfl
  | cons t rest ih => rw [attemptsOf, ih, List.map_cons, List.sum_cons]

theorem attemptsOf_map_call (cs : List CallTask) :
    attemptsOf (cs.map call) = (cs.map CallTask.attempts).sum := by
  rw [attemptsOf_eq, List.map_map]
  rfl

/-- The members of a group are run in isolation, one after the other. -/
theorem invokeAll_cons (binding : Binding) (past : List Task) (t : Task) (rest : List Task) :
    invokeAll binding past (t :: rest) =
      runIsolated binding t >>= fun t => invokeAll binding (t :: past) rest := by
  rw [invokeAll, runIsolated, LawfulMonad.bind_assoc]
  congr 1
  funext (ending, t)
  cases ending with
  | returned => rfl
  | panicked reason => rfl

end Task

/-! ## The paths of a group -/

namespace Task

variable {binding : Binding} {xs : List Exchange}

/-- A group that has not reported invokes its members, and then reports and returns. -/
theorem path_invoke_members {id : TaskId} {members : List Task} {ending : Ending} {t : Task}
    (h : Path (invoke binding (group id false members)) xs (ending, t)) :
    ∃ ys later, Path (invokeAll binding [] members) ys later ∧
      xs = ys ++ [⟨.emit (.groupCompleted id later.length (attemptsOf later) (firstError later)),
          ()⟩] ∧
      ending = .returned ∧ t = group id true later := by
  rw [invoke] at h
  obtain ⟨ys, zs, later, rfl, hmembers, hreport⟩ := path_bind_iff.mp h
  obtain ⟨left, hcomplete, hpair⟩ := path_bind_pure_iff.mp hreport
  obtain ⟨rfl, rfl⟩ := Prod.mk.inj hpair
  obtain ⟨_, rest, rfl, hdone⟩ := path_perform_bind_iff.mp hcomplete
  obtain ⟨rfl, rfl⟩ := path_pure_iff.mp hdone
  exact ⟨ys, later, hmembers, rfl, rfl, rfl⟩

/-- The report of a group whose calls were invoked. -/
def groupReport (id : TaskId) (is : List (Invocation binding)) : Exchange :=
  let members := is.map fun i => call i.after
  ⟨.emit (.groupCompleted id members.length (attemptsOf members) (firstError members)), ()⟩

theorem path_invokeAll_calls {cs : List CallTask} {past members : List Task}
    (h : Path (invokeAll binding past (cs.map call)) xs members) :
    ∃ is : List (Invocation binding), is.map Invocation.call = cs ∧
      xs = is.flatMap Invocation.exchanges ∧ members = past.reverse ++ is.map fun i =>
        call i.after := by
  induction cs generalizing past xs with
  | nil =>
    rw [List.map_nil, invokeAll] at h
    obtain ⟨rfl, rfl⟩ := path_pure_iff.mp h
    exact ⟨[], rfl, rfl, (List.append_nil _).symm⟩
  | cons c rest ih =>
    rw [List.map_cons, invokeAll_cons] at h
    obtain ⟨ys, zs, t, rfl, hfirst, hrest⟩ := path_bind_iff.mp h
    obtain ⟨i, rfl, rfl, rfl⟩ := path_runIsolated_call hfirst
    obtain ⟨is, rfl, rfl, rfl⟩ := ih hrest
    refine ⟨i :: is, rfl, rfl, ?_⟩
    rw [List.reverse_cons, List.append_assoc]
    rfl

theorem path_runIsolated_group {id : TaskId} {cs : List CallTask} {t : Task}
    (h : Path (runIsolated binding (group id false (cs.map call))) xs t) :
    ∃ is : List (Invocation binding), is.map Invocation.call = cs ∧
      xs = is.flatMap Invocation.exchanges ++ [groupReport id is] ∧
      t = group id true (is.map fun i => call i.after) := by
  obtain ⟨ys, zs, ⟨ending, t'⟩, rfl, hinvoke, hend⟩ := path_bind_iff.mp h
  obtain ⟨us, members, hmembers, rfl, rfl, rfl⟩ := path_invoke_members hinvoke
  obtain ⟨is, hcalls, rfl, rfl⟩ := path_invokeAll_calls hmembers
  obtain ⟨rfl, rfl⟩ := path_pure_iff.mp hend
  exact ⟨is, hcalls, List.append_nil _, rfl⟩

/-- What a group has exchanged at any time is the beginning of such a path; where nothing is missing
the group is done. -/
theorem after_runIsolated_group {id : TaskId} {cs : List CallTask} {q : Program Task}
    (h : After (runIsolated binding (group id false (cs.map call))) xs q) :
    ∃ (is : List (Invocation binding)) (rest : List Exchange), is.map Invocation.call = cs ∧
      xs ++ rest = is.flatMap Invocation.exchanges ++ [groupReport id is] ∧
      (rest = [] → q = .done (group id true (is.map fun i => call i.after))) := by
  obtain ⟨rest, t, hrest⟩ := exists_path q
  obtain ⟨is, hcalls, hxs, rfl⟩ := path_runIsolated_group (h.path hrest)
  refine ⟨is, rest, hcalls, hxs, ?_⟩
  rintro rfl
  cases hrest
  rfl

end Task

/-! ## What a group reports -/

namespace Task

variable {binding : Binding} {id : TaskId} {is : List (Invocation binding)}
  {xs rest : List Exchange}

theorem events_flatMap_exchanges (is : List (Invocation binding)) :
    events (is.flatMap Invocation.exchanges) = is.flatMap Invocation.reports := by
  induction is with
  | nil => rfl
  | cons i rest ih =>
    rw [List.flatMap_cons, List.flatMap_cons, events_append, i.events_eq, ih]

theorem events_group (is : List (Invocation binding)) (id : TaskId) :
    ∃ attempts error, events (is.flatMap Invocation.exchanges ++ [groupReport id is])
      = is.flatMap Invocation.reports ++ [.groupCompleted id is.length attempts error] := by
  refine ⟨attemptsOf (is.map fun i => call i.after), firstError (is.map fun i => call i.after), ?_⟩
  rw [events_append, events_flatMap_exchanges,
    ← List.length_map (f := fun i : Invocation binding => call i.after)]
  rfl

theorem outcomes_reports (is : List (Invocation binding)) :
    outcomes (is.flatMap Invocation.reports) = is.map Invocation.outcome := by
  induction is with
  | nil => rfl
  | cons i rest ih =>
    rw [List.flatMap_cons, outcomes_append, ih]
    rfl

theorem countP_isStart_reports (is : List (Invocation binding)) :
    (is.flatMap Invocation.reports).countP Event.isStart = is.length := by
  induction is with
  | nil => rfl
  | cons i rest ih =>
    rw [List.flatMap_cons, List.countP_append, ih, List.length_cons, Nat.add_comm]
    rfl

/-- A group that is done counts the attempts of its calls' outcomes. -/
theorem attempts_group (id : TaskId) (is : List (Invocation binding)) :
    (group id true (is.map fun i => call i.after)).attempts =
      ((is.map Invocation.outcome).map Outcome.attempts).sum := by
  have hmembers : (is.map fun i => call i.after) = (is.map Invocation.after).map call := by
    rw [List.map_map]
    rfl
  calc (group id true (is.map fun i => call i.after)).attempts
      = attemptsOf ((is.map Invocation.after).map call) := congrArg attemptsOf hmembers
    _ = ((is.map Invocation.outcome).map Outcome.attempts).sum := by
        rw [attemptsOf_map_call, List.map_map, List.map_map]
        rfl

theorem countP_isGroupEnd_calls (is : List (Invocation binding)) :
    (events (is.flatMap Invocation.exchanges)).countP Event.isGroupEnd = 0 := by
  rw [events_flatMap_exchanges, List.countP_eq_zero]
  intro event he
  obtain ⟨i, -, hi⟩ := List.mem_flatMap.mp he
  simp only [Invocation.reports, List.mem_cons, List.not_mem_nil, or_false] at hi
  rcases hi with rfl | rfl <;> exact Bool.false_ne_true

/-- A group reports its end at most once, and nothing is missing once it did. -/
theorem countP_isGroupEnd_le
    (h : xs ++ rest = is.flatMap Invocation.exchanges ++ [groupReport id is]) :
    (events xs).countP Event.isGroupEnd ≤ 1 ∧ ((events xs).countP Event.isGroupEnd = 1 →
        rest = []) := by
  have hcalls := countP_isGroupEnd_calls is
  rcases List.eq_nil_or_concat rest with rfl | ⟨most, last, rfl⟩
  · rw [List.append_nil] at h
    rw [h, events_append, List.countP_append, hcalls]
    exact ⟨Nat.le_refl _, fun _ => rfl⟩
  · -- What was exchanged is the beginning of what the calls exchange.
    rw [List.concat_eq_append, ← List.append_assoc] at h
    obtain ⟨hbefore, -⟩ := List.append_inj' h rfl
    rw [← hbefore, events_append, List.countP_append] at hcalls
    omega

/-- An invocation that is cut short did not report its outcome. -/
theorem completed_of_beginning {i : Invocation binding} (h : xs ++ rest = i.exchanges) {o : Outcome}
    (ho : .completed o ∈ events xs) : xs = i.exchanges ∧ i.outcome = o := by
  have hall : events i.exchanges = [.started i.call.id i.call.spec.function] ++
      [.completed i.outcome] := i.events_eq
  rcases List.eq_nil_or_concat rest with rfl | ⟨most, last, rfl⟩
  · rw [List.append_nil] at h
    rw [h, hall] at ho
    obtain rfl : o = i.outcome := by simpa using ho
    exact ⟨h, rfl⟩
  · -- The last exchange is missing, and it is the one that reports the outcome.
    exfalso
    have hlast : i.exchanges = i.making ++ [⟨.now, i.endedAt⟩] ++
        [⟨.emit (.completed i.outcome), ()⟩] := by
      rw [List.append_assoc]
      rfl
    rw [hlast, List.concat_eq_append, ← List.append_assoc] at h
    obtain ⟨hbefore, -⟩ := List.append_inj' h rfl
    rw [hlast, events_append] at hall
    obtain ⟨hstarted, -⟩ := List.append_inj' hall rfl
    rw [← hbefore, events_append] at hstarted
    have hmem := List.mem_append_left (events most) ho
    rw [hstarted] at hmem
    simp at hmem

/-- The invocation that made a reported outcome stands whole in what its group exchanged. -/
theorem invocation_of_completed
    (h : xs ++ rest = is.flatMap Invocation.exchanges ++ [groupReport id is]) {o : Outcome}
    (ho : .completed o ∈ events xs) :
    ∃ i ∈ is, i.outcome = o ∧ ∃ before after, xs = before ++ i.exchanges ++ after := by
  -- All that the induction needs of the group's report is that it is no call's.
  have hreport : .completed o ∉ events [groupReport id is] := by
    simp [groupReport, events, Exchange.event?]
  generalize groupReport id is = report at h hreport
  induction is generalizing xs with
  | nil =>
    cases xs with
    | nil => cases ho
    | cons x more =>
      obtain ⟨rfl, hnil⟩ := List.cons.inj h
      obtain ⟨rfl, -⟩ := List.append_eq_nil_iff.mp hnil
      exact absurd ho hreport
  | cons i is ih =>
    rw [List.flatMap_cons, List.append_assoc, List.append_eq_append_iff] at h
    rcases h with ⟨missing, hwhole, -⟩ | ⟨more, rfl, hmore⟩
    -- Either the group has not come past its first call, or that call's invocation is whole.
    · obtain ⟨rfl, rfl⟩ := completed_of_beginning hwhole.symm ho
      exact ⟨i, List.mem_cons_self, rfl, [], [], (List.append_nil _).symm⟩
    · rw [events_append] at ho
      rcases List.mem_append.mp ho with ho | ho
      · have hwhole : i.exchanges ++ [] = i.exchanges := List.append_nil _
        obtain ⟨-, rfl⟩ := completed_of_beginning hwhole ho
        exact ⟨i, List.mem_cons_self, rfl, [], more, rfl⟩
      · obtain ⟨j, hj, hout, before, after, rfl⟩ := ih ho hmore.symm
        refine ⟨j, List.mem_cons_of_mem i hj, hout, i.exchanges ++ before, after, ?_⟩
        simp only [List.append_assoc]

end Task

end LedgerBench
