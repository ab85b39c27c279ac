import LedgerBench.Proofs.Task.Attempts
import LedgerBench.Task.Tree
/-!
Isolated invocations of a call.

A call that is invoked reads the clock, reports its start, expands its arguments, makes its attempts
and reports its end; where the attempts end in a panic, `abandon` is what reports the end. Both ways
make the same exchanges, so one structure describes them: an `Invocation` is a path of the expansion
and a path of the attempts, with the times around them. What is proved:
  1. `path_runIsolated_call`: the paths of an isolated call are the exchanges of its invocations.
  2. `Invocation.events_eq`: an invocation reports a start and an outcome, and nothing else.
  3. `Invocation.attempts_eq_tries` and `Invocation.dropLast_tries`: it counts the attempts it made,
     and its loop kept the errors of all but the last.
  4. `Invocation.retried_eq_iff`: the outcome has these errors unless the call panicked on a later
     attempt than its first. The loop's list is then gone: `abandon` knows the number of attempts
     and not their errors.
-/

namespace LedgerBench

open Program

/-- What the end of a loop is reported as: the retried errors, and the result. A panic takes the
errors with it. -/
def Retried.reported (r : Retried Settled) : List CallError × Except CallError Settled :=
  match r.result with
  | .ok settled => (r.errors, .ok settled)
  | .failed e => (r.errors, .error e)
  | .panicked reason => ([], .error (CallError.panicked reason))

namespace CallTask

/-- What a call reports that ends at some time. -/
def outcome (c : CallTask) (retried : List CallError) (result : Except CallError Settled)
    (endedAt : Duration) :
    Outcome where
  task := c.id
  function := c.spec.function
  attempts := c.attempts
  duration := c.elapsed endedAt
  error := match result with
    | .ok _ => none
    | .error e => some e
  retried := retried
  transactionId := match result with
    | .ok settled => settled.transactionId
    | .error _ => none
  payload := match result with
    | .ok settled => settled.payload
    | .error _ => none

/-- The call once it reported an outcome. -/
def settledWith (c : CallTask) (o : Outcome) : CallTask :=
  { c with reported := true, lastError := o.error }

/-- The exchanges that report an outcome: the clock is read for it. -/
def reporting (endedAt : Duration) (o : Outcome) : List Exchange :=
  [⟨.now, endedAt⟩, ⟨.emit (.completed o), ()⟩]

theorem path_complete_iff {c : CallTask} (hc : c.reported = false) {retried : List CallError}
    {result : Except CallError Settled} {xs : List Exchange} {later : CallTask} :
    Path (c.complete retried result) xs later ↔
      ∃ endedAt, xs = reporting endedAt (c.outcome retried result endedAt) ∧
        later = c.settledWith (c.outcome retried result endedAt) := by
  unfold complete
  simp only [hc, Bool.false_eq_true, if_false]
  constructor
  · intro h
    obtain ⟨endedAt, rest, rfl, hemit⟩ := path_perform_bind_iff.mp h
    obtain ⟨_, rest, rfl, hdone⟩ := path_perform_bind_iff.mp hemit
    obtain ⟨rfl, rfl⟩ := path_pure_iff.mp hdone
    refine ⟨endedAt, ?_, ?_⟩ <;> cases result <;> rfl
  · rintro ⟨endedAt, rfl, rfl⟩
    refine path_perform_bind_iff.mpr ⟨endedAt, _, rfl, path_perform_bind_iff.mpr ⟨(), [], ?_, ?_⟩⟩
    · cases result <;> rfl
    · refine path_pure_iff.mpr ⟨rfl, ?_⟩
      cases result <;> rfl

/-- A call that has reported only reads the clock. -/
theorem path_complete_of_reported {c : CallTask} (hc : c.reported = true) {retried : List CallError}
    {result : Except CallError Settled} {xs : List Exchange} {later : CallTask}
    (h : Path (c.complete retried result) xs later) :
    (∃ now, xs = [⟨.now, now⟩]) ∧ later = c := by
  unfold complete at h
  simp only [hc, if_true] at h
  obtain ⟨now, rest, rfl, hdone⟩ := path_perform_bind_iff.mp h
  obtain ⟨rfl, rfl⟩ := path_pure_iff.mp hdone
  exact ⟨⟨now, rfl⟩, rfl⟩

end CallTask

/-- An invocation of a call, from its start to the report of its end. -/
structure Invocation (binding : Binding) where
  call : CallTask
  begunAt : Duration
  args : List String
  /-- The exchanges that expand the arguments. -/
  expansion : List Exchange
  expanded : Path (expandArgs Program.resolve call.spec.args) expansion args
  /-- The exchanges of the attempts and of the waits between them. -/
  attempting : List Exchange
  retried : Retried Settled
  attempted : Path (CallTask.attempt binding (call.request binding args)) attempting retried
  endedAt : Duration

namespace Invocation

variable {binding : Binding}

/-- The call with the bookkeeping of the invocation, before it reports its end. -/
def settling (i : Invocation binding) : CallTask :=
  { i.call with attempts := i.retried.attempts, startedAt := some i.begunAt, reported := false }

def outcome (i : Invocation binding) : Outcome :=
  i.settling.outcome i.retried.reported.1 i.retried.reported.2 i.endedAt

def after (i : Invocation binding) : CallTask := i.settling.settledWith i.outcome

/-- The exchanges up to the last attempt. -/
def making (i : Invocation binding) : List Exchange :=
  ⟨.now, i.begunAt⟩ :: ⟨.emit (.started i.call.id i.call.spec.function),
    ()⟩ :: (i.expansion ++ i.attempting)

def exchanges (i : Invocation binding) : List Exchange :=
  i.making ++ CallTask.reporting i.endedAt i.outcome

def Panicked (i : Invocation binding) : Prop := ∃ reason, i.retried.result = .panicked reason

def reports (i : Invocation binding) : List Event :=
  [.started i.call.id i.call.spec.function, .completed i.outcome]

end Invocation

/-! ## The paths of a call -/

namespace Invocation

variable {binding : Binding} (i : Invocation binding) {ys : List Exchange}

theorem isResolve_expansion : ∀ x ∈ i.expansion, x.effect.IsResolve :=
  only_expandArgs i.call.spec.args i.expansion i.args i.expanded

/-- Up to its last attempt a call reports only that it started. -/
theorem events_making : events i.making = [.started i.call.id i.call.spec.function] := by
  have hexp := events_of_isResolve i.isResolve_expansion
  have hatt := events_of_isTry (CallTask.tries_of_attempt i.attempted).1
  show .started i.call.id i.call.spec.function :: events (i.expansion ++ i.attempting) = _
  rw [events_append, hexp, hatt]
  rfl

/-- Whatever time it is, reporting the end makes up the rest of the invocation. -/
theorem path_report {later : CallTask}
    (h : Path (i.settling.complete i.retried.reported.1 i.retried.reported.2) ys later) :
    ∃ endedAt, i.making ++ ys = { i with endedAt }.exchanges ∧
      later = { i with endedAt }.after := by
  obtain ⟨endedAt, rfl, rfl⟩ := (CallTask.path_complete_iff rfl).mp h
  exact ⟨endedAt, rfl, rfl⟩

/-- The end of an invocation that returns. -/
theorem path_return {result : Except CallError Settled}
    (hr : i.retried.reported = (i.retried.errors, result)) {ending : Ending} {left : CallTask}
    (h : Path (do pure (Ending.returned, ← i.settling.complete i.retried.errors result)) ys
      (ending, left)) :
    ending = .returned ∧
      ∃ endedAt, i.making ++ ys = { i with endedAt }.exchanges ∧
        left = { i with endedAt }.after := by
  obtain ⟨later, hcomplete, hpair⟩ := path_bind_pure_iff.mp h
  obtain ⟨rfl, rfl⟩ := Prod.mk.inj hpair
  exact ⟨rfl, i.path_report (by rw [hr]; exact hcomplete)⟩

end Invocation

namespace CallTask

variable {binding : Binding} {c : CallTask} {xs : List Exchange}

/-- The paths of an invocation: all its exchanges where it returns, and those up to the last attempt
where it panics. It then leaves the call unreported. -/
theorem path_invoke_cases {ending : Ending} {left : CallTask}
    (h : Path (c.invoke binding) xs (ending, left)) :
    ∃ i : Invocation binding, i.call = c ∧
      ((¬ i.Panicked ∧ xs = i.exchanges ∧ ending = .returned ∧ left = i.after) ∨
        ∃ reason, i.retried.result = .panicked reason ∧ xs = i.making ∧ ending = .panicked reason ∧
          left = i.settling) := by
  obtain ⟨begunAt, xs1, rfl, hstart⟩ := path_perform_bind_iff.mp h
  obtain ⟨_, xs2, rfl, hargs⟩ := path_perform_bind_iff.mp hstart
  obtain ⟨expansion, xs3, args, rfl, hexp, hloop⟩ := path_bind_iff.mp hargs
  obtain ⟨attempting, tail, r, rfl, hatt, hend⟩ := path_bind_iff.mp hloop
  -- The invocation, but for the time of its end, which is not known yet.
  let i : Invocation binding := ⟨c, begunAt, args, expansion, hexp, attempting, r, hatt, begunAt⟩
  have hmaking : ⟨.now, begunAt⟩ :: ⟨.emit (.started c.id c.spec.function),
      ()⟩ :: (expansion ++ (attempting ++ tail))
      = i.making ++ tail := by
    show _ = _ :: _ :: (expansion ++ attempting ++ tail)
    rw [List.append_assoc]
  rw [hmaking]
  cases hr : r.result with
  | ok settled =>
    simp only [hr] at hend
    have hreported : r.reported = (r.errors, .ok settled) := by rw [Retried.reported, hr]
    have hno : ¬ i.Panicked := by
      rintro ⟨reason, hp⟩
      cases hr.symm.trans hp
    obtain ⟨rfl, endedAt, hxs, rfl⟩ := i.path_return hreported hend
    exact ⟨{ i with endedAt }, rfl, .inl ⟨hno, hxs, rfl, rfl⟩⟩
  | failed e =>
    simp only [hr] at hend
    have hreported : r.reported = (r.errors, .error e) := by rw [Retried.reported, hr]
    have hno : ¬ i.Panicked := by
      rintro ⟨reason, hp⟩
      cases hr.symm.trans hp
    obtain ⟨rfl, endedAt, hxs, rfl⟩ := i.path_return hreported hend
    exact ⟨{ i with endedAt }, rfl, .inl ⟨hno, hxs, rfl, rfl⟩⟩
  | panicked reason =>
    simp only [hr] at hend
    obtain ⟨rfl, hpair⟩ := path_pure_iff.mp hend
    obtain ⟨rfl, rfl⟩ := Prod.mk.inj hpair
    rw [List.append_nil]
    exact ⟨i, rfl, .inr ⟨reason, hr, rfl, rfl, rfl⟩⟩

/-- An invocation that panics has reported its start, and what abandoning adds makes it whole. -/
theorem path_invoke {ending : Ending} {left : CallTask}
    (h : Path (c.invoke binding) xs (ending, left)) :
    (∃ i : Invocation binding, i.call = c ∧ ¬ i.Panicked ∧ xs = i.exchanges ∧ ending = .returned ∧
      left = i.after) ∨
      ∃ reason, ending = .panicked reason ∧ events xs = [.started c.id c.spec.function] ∧
        ∀ ys later, Path (left.abandon reason) ys later →
          ∃ i : Invocation binding, i.call = c ∧ i.Panicked ∧ xs ++ ys = i.exchanges ∧
            later = i.after := by
  obtain ⟨i, rfl, ⟨hno, rfl, rfl, rfl⟩ | ⟨reason, hr, rfl, rfl, rfl⟩⟩ := path_invoke_cases h
  · exact .inl ⟨i, rfl, hno, rfl, rfl, rfl⟩
  · refine .inr ⟨reason, rfl, i.events_making, ?_⟩
    -- Abandoning is reporting without the errors that the loop kept, which is what `reported` says
    -- of a panic.
    intro ys later habandon
    have hreported : i.retried.reported = ([], .error (CallError.panicked reason)) := by
      rw [Retried.reported, hr]
    have hcomplete :
        Path (i.settling.complete i.retried.reported.1 i.retried.reported.2) ys later := by
      rw [hreported]
      exact habandon
    obtain ⟨endedAt, hxs, rfl⟩ := i.path_report hcomplete
    exact ⟨{ i with endedAt }, rfl, ⟨reason, hr⟩, hxs, rfl⟩

end CallTask

/-- The paths of an isolated call: it is invoked, and abandoned where it panics. -/
theorem path_runIsolated_call {binding : Binding} {c : CallTask} {xs : List Exchange} {t : Task}
    (h : Path (Task.runIsolated binding (.call c)) xs t) :
    ∃ i : Invocation binding, i.call = c ∧ xs = i.exchanges ∧ t = .call i.after := by
  obtain ⟨ys, zs, ⟨ending, t'⟩, rfl, hinvoke, hrest⟩ := path_bind_iff.mp h
  obtain ⟨⟨ending', left⟩, hcall, hpair⟩ := path_bind_pure_iff.mp hinvoke
  obtain ⟨rfl, rfl⟩ := Prod.mk.inj hpair
  rcases CallTask.path_invoke hcall with ⟨i, hi, -, rfl, rfl, rfl⟩ | ⟨reason, rfl, -, habandon⟩
  · obtain ⟨rfl, rfl⟩ := path_pure_iff.mp hrest
    exact ⟨i, hi, List.append_nil _, rfl⟩
  · obtain ⟨later, hlater, rfl⟩ := path_bind_pure_iff.mp hrest
    obtain ⟨i, hi, -, hxs, rfl⟩ := habandon zs later hlater
    exact ⟨i, hi, hxs, rfl⟩

/-! ## What an invocation reports -/

namespace Invocation

variable {binding : Binding} (i : Invocation binding)

theorem events_eq : events i.exchanges = i.reports := by
  rw [exchanges, events_append, events_making]
  rfl

/-- What only attempts tell is told by the attempts of the invocation. -/
theorem filterMap_exchanges {β : Type} {f : Exchange → Option β}
    (hf : ∀ x : Exchange, ¬ x.effect.IsTry → f x = none) :
    i.exchanges.filterMap f = i.attempting.filterMap f := by
  have hexpansion : i.expansion.filterMap f = [] :=
    List.filterMap_eq_nil_iff.mpr fun x hx => hf x (i.isResolve_expansion x hx).not_isTry
  have hnow : ∀ time, f ⟨.now, time⟩ = none := fun time => hf _ id
  have hemit : ∀ event answer, f ⟨.emit event, answer⟩ = none := fun event answer => hf _ id
  rw [exchanges, making, CallTask.reporting, List.filterMap_append,
    List.filterMap_cons_none (hnow _), List.filterMap_cons_none (hemit _ _), List.filterMap_append,
    hexpansion, List.filterMap_cons_none (hnow _), List.filterMap_cons_none (hemit _ _)]
  exact List.append_nil _

theorem tries_eq : tries i.exchanges = tries i.attempting :=
  i.filterMap_exchanges fun ⟨effect, _⟩ h => by cases effect <;>
    first | rfl | exact absurd trivial h

/-- The loop kept the errors of the attempts that were followed by another one. -/
theorem dropLast_tries : (tries i.exchanges).dropLast = i.retried.errors.map some := by
  obtain ⟨-, e, he⟩ := CallTask.tries_of_attempt i.attempted
  rw [tries_eq, he, List.dropLast_concat]

theorem attempts_eq_tries : i.outcome.attempts = (tries i.exchanges).length := by
  obtain ⟨-, e, he⟩ := CallTask.tries_of_attempt i.attempted
  rw [tries_eq, he, List.length_append, List.length_map, List.length_singleton]
  rfl

/-- An outcome without an error is that of a call that settled. -/
theorem settled_of_error_none (h : i.outcome.error = none) :
    ∃ settled, i.retried.result = .ok settled ∧ i.outcome.payload = settled.payload := by
  have herror : i.outcome.error = match i.retried.reported.2 with
      | .ok _ => none
      | .error e => some e := rfl
  have hpayload : i.outcome.payload = match i.retried.reported.2 with
      | .ok settled => settled.payload
      | .error _ => none := rfl
  rw [herror] at h
  rw [hpayload]
  unfold Retried.reported at h ⊢
  cases hr : i.retried.result with
  | ok settled => exact ⟨settled, rfl, rfl⟩
  | failed e =>
    rw [hr] at h
    cases h
  | panicked reason =>
    rw [hr] at h
    cases h

theorem retried_of_not_panicked (h : ¬ i.Panicked) : i.outcome.retried = i.retried.errors := by
  show i.retried.reported.1 = i.retried.errors
  unfold Retried.reported
  cases hr : i.retried.result with
  | ok settled => rfl
  | failed e => rfl
  | panicked reason => exact absurd ⟨reason, hr⟩ h

theorem retried_of_panicked (h : i.Panicked) : i.outcome.retried = [] := by
  obtain ⟨reason, hr⟩ := h
  show i.retried.reported.1 = []
  unfold Retried.reported
  rw [hr]

/-- The outcome has the errors of the retried attempts, unless the call panicked after a retry. -/
theorem retried_eq_iff :
    i.outcome.retried.map some = (tries i.exchanges).dropLast ↔
      (i.Panicked → i.outcome.attempts = 1) := by
  have hattempts : i.outcome.attempts = i.retried.errors.length + 1 := rfl
  rw [dropLast_tries, hattempts]
  by_cases hp : i.Panicked
  · rw [i.retried_of_panicked hp]
    -- The outcome has no errors; the loop had kept none exactly if the first attempt was the last.
    cases i.retried.errors with
    | nil => exact ⟨fun _ _ => rfl, fun _ => rfl⟩
    | cons e rest =>
      constructor
      · intro h
        cases h
      · intro h
        have := h hp
        simp at this
  · rw [i.retried_of_not_panicked hp]
    exact ⟨fun _ hp' => absurd hp' hp, fun _ => rfl⟩

theorem length_retried_le : i.outcome.retried.length + 1 ≤ i.outcome.attempts := by
  have hattempts : i.outcome.attempts = i.retried.errors.length + 1 := rfl
  rw [hattempts]
  by_cases hp : i.Panicked
  · rw [i.retried_of_panicked hp]
    simp
  · exact Nat.le_of_eq (by rw [i.retried_of_not_panicked hp])

/-- The number of retried errors falls short in the same cases. -/
theorem length_retried_iff :
    i.outcome.retried.length + 1 = i.outcome.attempts ↔ (i.Panicked → i.outcome.attempts = 1) := by
  have hattempts : i.outcome.attempts = i.retried.errors.length + 1 := rfl
  by_cases hp : i.Panicked
  · rw [i.retried_of_panicked hp]
    exact ⟨fun h _ => h.symm, fun h => (h hp).symm⟩
  · rw [i.retried_of_not_panicked hp]
    exact ⟨fun _ hp' => absurd hp' hp, fun _ => hattempts.symm⟩

end Invocation

end LedgerBench
