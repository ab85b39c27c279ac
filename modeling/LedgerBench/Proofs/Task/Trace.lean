import LedgerBench.Proofs.Task.Group
/-!
What a tree of tasks reports.

Calls and groups make trees of any shape. Members run one after the other, each of them isolated, so
a tree goes as its calls go: an `Invoked` tree has an invocation in the place of every call. What is
proved:
  1. `Invoked.attempts_after`, `Invoked.lastError_after`: when a group comes to report, it counts
     the attempts of all outcomes in it and holds the first error among them, depth first.
  2. `Task.path_runIsolated`: the paths of an isolated tree are the exchanges of an invoked tree of
     the same shape.
  3. `Invoked.reportedAttempts_le`: no event reports more attempts than the tree has made in all.
  4. `Task.trace_of_invoke`: a tree reports exactly its depth-first trace, whatever the ledger does.
     A call that panics has its outcome in the trace like every other; but it is not the call that
     reports it, so a tree that is a single call has it from whoever abandons the call.
  5. `Task.started_of_panic`: the invocation of such a call reports its start only.
-/

namespace LedgerBench

open Program

/-! ## Trees of invocations -/

/-- How a tree of tasks went: an invocation of each call, in the groups that the call is in. -/
inductive Invoked (binding : Binding) where
  | call (i : Invocation binding)
  | group (id : TaskId) (members : List (Invoked binding))

namespace Invoked

variable {binding : Binding}

mutual

/-- The tree of tasks, with what is taken of each invocation in the place of its call. -/
def tree (pick : Invocation binding → CallTask) (completed : Bool) : Invoked binding → Task
  | call i => .call (pick i)
  | group id members => .group id completed (trees pick completed members)

def trees (pick : Invocation binding → CallTask) (completed : Bool) :
    List (Invoked binding) → List Task
  | [] => []
  | v :: rest => tree pick completed v :: trees pick completed rest

end

/-- The tree before it was invoked. -/
def before (v : Invoked binding) : Task := v.tree Invocation.call false

/-- The tree after it. -/
def after (v : Invoked binding) : Task := v.tree Invocation.after true

mutual

/-- The invocations of a tree's calls, depth first. -/
def invocations : Invoked binding → List (Invocation binding)
  | call i => [i]
  | group _ members => invocationsOf members

def invocationsOf : List (Invoked binding) → List (Invocation binding)
  | [] => []
  | v :: rest => invocations v ++ invocationsOf rest

end

/-- What a group reports: how many members it has, the attempts of all calls in it, and the first
error of their outcomes, depth first. -/
def report (id : TaskId) (members : List (Invoked binding)) : Event :=
  .groupCompleted id members.length
    (((invocationsOf members).map Invocation.outcome).map Outcome.attempts).sum
    (((invocationsOf members).map Invocation.outcome).findSome? Outcome.error)

mutual

/-- The depth-first trace of a tree: a start and an outcome for each call, and for each group the
traces of its members and then its report. -/
def trace : Invoked binding → List Event
  | call i => [.started i.call.id i.call.spec.function, .completed i.outcome]
  | group id members => traceOf members ++ [report id members]

def traceOf : List (Invoked binding) → List Event
  | [] => []
  | v :: rest => trace v ++ traceOf rest

end

mutual

/-- The exchanges of a tree, depth first. -/
def exchanges : Invoked binding → List Exchange
  | call i => i.exchanges
  | group id members => exchangesOf members ++ [⟨.emit (report id members), ()⟩]

def exchangesOf : List (Invoked binding) → List Exchange
  | [] => []
  | v :: rest => exchanges v ++ exchangesOf rest

end

@[simp] theorem length_trees (pick : Invocation binding → CallTask) (completed : Bool)
    (vs : List (Invoked binding)) :
    (trees pick completed vs).length = vs.length := by
  induction vs with
  | nil => rfl
  | cons v rest ih => simp only [trees, List.length_cons, ih]

/-! ## What groups count and hold -/

mutual

theorem attempts_after (v : Invoked binding) :
    v.after.attempts = ((v.invocations.map Invocation.outcome).map Outcome.attempts).sum := by
  cases v with
  | call i => exact (Nat.add_zero _).symm
  | group id members => exact attemptsOf_after members

theorem attemptsOf_after (vs : List (Invoked binding)) :
    Task.attemptsOf (trees Invocation.after true vs)
      = (((invocationsOf vs).map Invocation.outcome).map Outcome.attempts).sum := by
  cases vs with
  | nil => rfl
  | cons v rest =>
    have hv := attempts_after v
    have hrest := attemptsOf_after rest
    simp only [invocationsOf, List.map_append, List.sum_append, ← hv, ← hrest]
    rfl

end

mutual

theorem lastError_after (v : Invoked binding) :
    v.after.lastError = (v.invocations.map Invocation.outcome).findSome? Outcome.error := by
  cases v with
  | call i =>
    show i.outcome.error = _
    cases he : i.outcome.error <;> simp [invocations, he]
  | group id members => exact firstError_after members

theorem firstError_after (vs : List (Invoked binding)) :
    Task.firstError (trees Invocation.after true vs)
      = ((invocationsOf vs).map Invocation.outcome).findSome? Outcome.error := by
  cases vs with
  | nil => rfl
  | cons v rest =>
    have hv := lastError_after v
    have hrest := firstError_after rest
    show (match v.after.lastError with
      | some e => some e
      | none => Task.firstError (trees Invocation.after true rest)) = _
    rw [hv, hrest, invocationsOf, List.map_append, List.findSome?_append]
    -- The first error is one of the first member, where that has one.
    cases (v.invocations.map Invocation.outcome).findSome? Outcome.error <;> rfl

end

/-! ## The numbers in a trace

What a call and a group report of their attempts has 32 bits. No event reports more of them than the
tree has made in all, so they fit wherever the number of the whole tree does.
-/

/-- The attempts that an event reports. -/
def reportedAttempts : Event → Nat
  | .started _ _ => 0
  | .completed o => o.attempts
  | .groupCompleted _ _ attempts _ => attempts

mutual

theorem reportedAttempts_le (v : Invoked binding) : ∀ e ∈ v.trace,
    reportedAttempts e ≤ ((v.invocations.map Invocation.outcome).map Outcome.attempts).sum := by
  intro e he
  cases v with
  | call i =>
    simp only [trace, List.mem_cons, List.not_mem_nil, or_false] at he
    rcases he with rfl | rfl
    · exact Nat.zero_le _
    · exact Nat.le_refl _
  | group id members =>
    rw [trace, List.mem_append, List.mem_singleton] at he
    rcases he with he | rfl
    · exact reportedAttempts_le_of_mem members e he
    · exact Nat.le_refl _

theorem reportedAttempts_le_of_mem (vs : List (Invoked binding)) : ∀ e ∈ traceOf vs,
    reportedAttempts e ≤
      (((invocationsOf vs).map Invocation.outcome).map Outcome.attempts).sum := by
  intro e he
  cases vs with
  | nil => cases he
  | cons v rest =>
    simp only [invocationsOf, List.map_append, List.sum_append]
    rw [traceOf, List.mem_append] at he
    rcases he with he | he
    · have hv := reportedAttempts_le v e he
      omega
    · have hrest := reportedAttempts_le_of_mem rest e he
      omega

end

theorem reportedAttempts_lt {v : Invoked binding} (h : v.after.attempts < Task.attemptBound) :
    ∀ e ∈ v.trace, reportedAttempts e < Task.attemptBound := by
  intro e he
  rw [attempts_after] at h
  exact Nat.lt_of_le_of_lt (v.reportedAttempts_le e he) h

/-! ## What trees report -/

mutual

theorem events_exchanges (v : Invoked binding) : events v.exchanges = v.trace := by
  cases v with
  | call i => exact i.events_eq
  | group id members =>
    rw [exchanges, events_append, events_exchangesOf members]
    rfl

theorem events_exchangesOf (vs : List (Invoked binding)) :
    events (exchangesOf vs) = traceOf vs := by
  cases vs with
  | nil => rfl
  | cons v rest =>
    rw [exchangesOf, events_append, events_exchanges v, events_exchangesOf rest]
    rfl

end

end Invoked

/-! ## The paths of a tree -/

namespace Invocation

variable {binding : Binding} (i : Invocation binding)

/-- A call that panics is reported with that error: one that does not clear up, and with what was
said. -/
theorem error_of_panicked {reason : String} (h : i.retried.result = .panicked reason) :
    i.outcome.error = some { kind := .persistent, message := "task panicked: " ++ reason,
                             transactionId := none } := by
  have hreported : i.retried.reported = ([], .error (CallError.panicked reason)) := by
    rw [Retried.reported, h]
  unfold outcome CallTask.outcome
  rw [hreported]
  rfl

/-- The ledger's panic is what ends the call's attempts. -/
theorem panicked_of_exchange {x : Exchange} (hx : x ∈ i.exchanges) {reason : String}
    (hp : x.panic? = some reason) :
    i.retried.result = .panicked reason := by
  simp only [exchanges, making, CallTask.reporting, List.cons_append, List.mem_cons,
    List.mem_append, List.not_mem_nil, or_false] at hx
  rcases hx with rfl | rfl | (hx | hx) | rfl | rfl
  · cases hp
  · cases hp
  · -- Expanding the arguments asks the ledger for nothing.
    obtain ⟨effect, answer⟩ := x
    have hr := i.isResolve_expansion _ hx
    cases effect <;> first | cases hp | exact hr.elim
  · exact CallTask.panicked_of_attempt i.attempted hx hp
  · cases hp
  · cases hp

end Invocation

namespace Task

variable {binding : Binding}

mutual

/-- Calls and groups, no group of which has reported yet. -/
def Unreported : Task → Prop
  | call _ => True
  | group _ completed members => completed = false ∧ UnreportedAll members
  | standIn _ => False

def UnreportedAll : List Task → Prop
  | [] => True
  | t :: rest => Unreported t ∧ UnreportedAll rest

end

/-- A group that has not reported goes as its members go, and then reports. -/
theorem path_invoke_group {id : TaskId} {members : List Task} {xs : List Exchange} {ending : Ending}
    {left : Task} (hmembers : ∀ {ys later}, Path (invokeAll binding [] members) ys later →
      ∃ vs : List (Invoked binding), Invoked.trees Invocation.call false vs = members ∧
      ys = Invoked.exchangesOf vs ∧ later = Invoked.trees Invocation.after true vs)
    (h : Path (invoke binding (group id false members)) xs (ending, left)) :
    ending = .returned ∧ ∃ v : Invoked binding, v.before = group id false members ∧
      xs = v.exchanges ∧ left = v.after := by
  obtain ⟨ys, later, hys, rfl, rfl, rfl⟩ := path_invoke_members h
  obtain ⟨vs, hbefore, rfl, rfl⟩ := hmembers hys
  refine ⟨rfl, .group id vs, ?_, ?_, rfl⟩
  · show group id false (Invoked.trees Invocation.call false vs) = _
    rw [hbefore]
  · have hevent : Event.groupCompleted id (Invoked.trees Invocation.after true vs).length
        (attemptsOf (Invoked.trees Invocation.after true vs))
          (firstError (Invoked.trees Invocation.after true vs))
          = Invoked.report id vs := by
      rw [Invoked.length_trees, Invoked.attemptsOf_after, Invoked.firstError_after]
      rfl
    rw [Invoked.exchanges, hevent]

mutual

/-- The paths of an isolated tree are the exchanges of its calls' invocations and the reports of its
groups, depth first. -/
theorem path_runIsolated {t left : Task} (ht : t.Unreported) {xs : List Exchange}
    (h : Path (t.runIsolated binding) xs left) :
    ∃ v : Invoked binding, v.before = t ∧ xs = v.exchanges ∧ left = v.after := by
  cases t with
  | call c =>
    obtain ⟨i, rfl, rfl, rfl⟩ := path_runIsolated_call h
    exact ⟨.call i, rfl, rfl, rfl⟩
  | group id completed members =>
    obtain ⟨rfl, hmembers⟩ := ht
    obtain ⟨ys, zs, ⟨ending, t⟩, rfl, hinvoke, hend⟩ := path_bind_iff.mp h
    obtain ⟨rfl, v, hbefore, rfl, rfl⟩ := path_invoke_group (path_invokeAll hmembers) hinvoke
    obtain ⟨rfl, rfl⟩ := path_pure_iff.mp hend
    exact ⟨v, hbefore, List.append_nil _, rfl⟩
  | standIn s => exact ht.elim

theorem path_invokeAll {ts past : List Task} (hts : UnreportedAll ts) {xs : List Exchange}
    {members : List Task} (h : Path (invokeAll binding past ts) xs members) :
    ∃ vs : List (Invoked binding),
      Invoked.trees Invocation.call false vs = ts ∧ xs = Invoked.exchangesOf vs ∧
        members = past.reverse ++ Invoked.trees Invocation.after true vs := by
  cases ts with
  | nil =>
    rw [invokeAll] at h
    obtain ⟨rfl, rfl⟩ := path_pure_iff.mp h
    exact ⟨[], rfl, rfl, (List.append_nil _).symm⟩
  | cons t rest =>
    obtain ⟨ht, hrest⟩ := hts
    rw [invokeAll_cons] at h
    obtain ⟨ys, zs, left, rfl, hfirst, hmore⟩ := path_bind_iff.mp h
    obtain ⟨v, hv, rfl, rfl⟩ := path_runIsolated ht hfirst
    obtain ⟨vs, hvs, rfl, rfl⟩ := path_invokeAll hrest hmore
    refine ⟨v :: vs, ?_, rfl, ?_⟩
    · rw [Invoked.trees, hvs]
      exact congrArg (· :: rest) hv
    · rw [List.reverse_cons, List.append_assoc]
      rfl

end

end Task

/-! ## The trace of a tree -/

/-- What a task exchanged and what it is left as, told as a tree of invocations: it reports the
trace of that tree, in which no number of attempts is too large for its 32 bits, and a call that
panicked has an outcome in it that says so. -/
structure Invoked.Tells {binding : Binding} (v : Invoked binding) (t : Task) (xs : List Exchange)
    (left : Task) : Prop where
  before : v.before = t
  after : v.after = left
  exchanges : v.exchanges = xs
  events : Program.events xs = v.trace
  counted : ∀ e ∈ v.trace, Invoked.reportedAttempts e < Task.attemptBound
  panics : ∀ i ∈ v.invocations, ∀ reason,
    (i.retried.result = .panicked reason ∨ ∃ x ∈ i.exchanges, x.panic? = some reason) →
      i.outcome.error = some { kind := .persistent, message := "task panicked: " ++ reason,
                               transactionId := none }

namespace Task

variable {binding : Binding}

theorem tells_of_runIsolated {t left : Task} (ht : t.Unreported) {xs : List Exchange}
    (h : Path (t.runIsolated binding) xs left) (hfits : left.attempts < attemptBound) :
    ∃ v : Invoked binding, v.Tells t xs left := by
  obtain ⟨v, hbefore, rfl, rfl⟩ := path_runIsolated ht h
  refine ⟨v, hbefore, rfl, rfl, v.events_exchanges, Invoked.reportedAttempts_lt hfits, ?_⟩
  intro i _ reason hpanic
  apply i.error_of_panicked
  rcases hpanic with hresult | ⟨x, hx, hp⟩
  · exact hresult
  · exact i.panicked_of_exchange hx hp

/-- An invocation that returns needs nobody to abandon the task. -/
theorem path_runIsolated_of_returned {t left : Task} {xs : List Exchange}
    (h : Path (t.invoke binding) xs (.returned, left)) : Path (t.runIsolated binding) xs left := by
  have hdone : Path (pure left : Program Task) [] left := .done left
  exact path_bind_iff.mpr ⟨xs, [], (.returned, left), (List.append_nil _).symm, h, hdone⟩

/-- Only a call panics; a group has isolated its members. -/
theorem call_of_panicked {t left : Task} (ht : t.Unreported) {xs : List Exchange} {reason : String}
    (h : Path (t.invoke binding) xs (.panicked reason, left)) :
    ∃ c, t = .call c ∧ events xs = [.started c.id c.spec.function] := by
  cases t with
  | call c =>
    obtain ⟨⟨ending, c'⟩, hcall, hpair⟩ := path_bind_pure_iff.mp h
    obtain ⟨rfl, -⟩ := Prod.mk.inj hpair
    rcases CallTask.path_invoke hcall with ⟨_, -, -, -, hending, -⟩ | ⟨_, -, hevents, -⟩
    · cases hending
    · exact ⟨c, rfl, hevents⟩
  | group id completed members =>
    obtain ⟨rfl, hmembers⟩ := ht
    obtain ⟨hending, -⟩ := path_invoke_group (path_invokeAll hmembers) h
    cases hending
  | standIn s => exact ht.elim

/-- A tree of calls and groups that is run in isolation reports exactly its depth-first trace,
whatever the ledger does, and so does its invocation alone unless the tree is a single call that
panics: then the invocation reports the start of that call only. Alone in a world it always comes to
its end. All of it where the attempts of the tree, summed up, have 32 bits; a task has one place in
its tree, since a tree holds its tasks and does not refer to them. -/
theorem trace_of_invoke {t : Task} (ht : t.Unreported) :
    (∀ xs left, Path (t.runIsolated binding) xs left → left.attempts < attemptBound →
      ∃ v : Invoked binding, v.Tells t xs left) ∧
    (∀ xs ending left, Path (t.invoke binding) xs (ending, left) → left.attempts < attemptBound →
      (ending = .returned ∧ ∃ v : Invoked binding, v.Tells t xs left) ∨
      (∃ reason c, ending = .panicked reason ∧ t = .call c ∧
          events xs = [.started c.id c.spec.function])) ∧
    (∀ {σ : Type} (ledger : Ledger σ) (w : World σ),
      ((t.runIsolated binding).run ledger w).1.attempts < attemptBound →
      ∃ (xs : List Exchange) (v : Invoked binding),
        v.Tells t xs ((t.runIsolated binding).run ledger w).1 ∧
        ((t.runIsolated binding).run ledger w).2.events = w.events ++ v.trace) := by
  refine ⟨fun xs left => tells_of_runIsolated ht, ?_, ?_⟩
  · intro xs ending left h hfits
    cases ending with
    | returned => exact .inl ⟨rfl, tells_of_runIsolated ht (path_runIsolated_of_returned h) hfits⟩
    | panicked reason =>
      obtain ⟨c, hc, hevents⟩ := call_of_panicked ht h
      exact .inr ⟨reason, c, rfl, hc, hevents⟩
  · intro σ ledger w hfits
    obtain ⟨xs, hpath, hevents⟩ := Program.path_run ledger (t.runIsolated binding) w
    obtain ⟨v, hv⟩ := tells_of_runIsolated ht hpath hfits
    refine ⟨xs, v, hv, ?_⟩
    rw [hevents, hv.events]

/-! ### A tree with a panic in it, and a call that is the whole tree -/

def submitting : Binding where
  mode := .submit

def putCall : CallTask where
  id := ⟨Ulid.ofNat 1⟩
  spec := { function := "put" }

/-- A ledger that panics on every call. -/
def exploding : Ledger Unit := (Service.panicking "bang").atOnce

/-- A group with an empty group before the call and a group around another one after it. -/
def nested : Task :=
  .group ⟨Ulid.ofNat 2⟩ false
    [.group ⟨Ulid.ofNat 3⟩ false [], .call putCall,
      .group ⟨Ulid.ofNat 4⟩ false [.call { putCall with id := ⟨Ulid.ofNat 5⟩ }]]

def still : World Unit where
  scope := {}
  ledger := ()

/-- What a call reports that panics on its only attempt, while no time passes. -/
def bang (id : TaskId) : Outcome where
  task := id
  function := "put"
  attempts := 1
  duration := Duration.zero
  error := some { kind := .persistent, message := "task panicked: bang" }
  retried := []
  transactionId := none
  payload := none

/-- The call that is the whole tree reports its start and nothing else, which is no trace of it. -/
theorem started_of_panic :
    ∃ xs left, Path ((call putCall).invoke submitting) xs (.panicked "bang", left) ∧
      events xs = [.started putCall.id "put"] ∧
      ∀ v : Invoked submitting, v.before = call putCall → events xs ≠ v.trace := by
  have hpath : ∃ left, Path ((call putCall).invoke submitting)
      [⟨.now, Duration.zero⟩, ⟨.emit (.started putCall.id "put"), ()⟩,
        ⟨.submit (putCall.request submitting []), .panicked "bang"⟩]
      (.panicked "bang", left) := ⟨_, .act (.act (.act (.done _)))⟩
  obtain ⟨left, h⟩ := hpath
  refine ⟨_, left, h, rfl, ?_⟩
  intro v hv htrace
  cases v with
  | call i =>
    -- One event against two.
    have hlength : 1 = 2 := congrArg List.length htrace
    omega
  | group id members => cases hv

theorem trace_of_invoke_nested :
    nested.Unreported ∧
      (∃ left : Task, left.attempts < attemptBound ∧
        ∃ xs, Path (nested.invoke submitting) xs (.returned, left) ∧ ∃ v : Invoked submitting,
          v.Tells nested xs left) ∧
      ((nested.runIsolated submitting).run exploding still).1.attempts < attemptBound ∧
      ∃ (xs : List Exchange) (v : Invoked submitting),
        v.Tells nested xs ((nested.runIsolated submitting).run exploding still).1 ∧
        v.trace = [.groupCompleted ⟨Ulid.ofNat 3⟩ 0 0 none,
          .started ⟨Ulid.ofNat 1⟩ "put", .completed (bang ⟨Ulid.ofNat 1⟩),
          .started ⟨Ulid.ofNat 5⟩ "put", .completed (bang ⟨Ulid.ofNat 5⟩),
          .groupCompleted ⟨Ulid.ofNat 4⟩ 1 1 (bang ⟨Ulid.ofNat 5⟩).error,
          .groupCompleted ⟨Ulid.ofNat 2⟩ 3 2 (bang ⟨Ulid.ofNat 1⟩).error] := by
  have hnested : nested.Unreported :=
    ⟨rfl, ⟨rfl, trivial⟩, trivial, ⟨rfl, trivial, trivial⟩, trivial⟩
  obtain ⟨hisolated, hinvoke, hrun⟩ := @trace_of_invoke submitting nested hnested
  have hfits : ((nested.runIsolated submitting).run exploding still).1.attempts < attemptBound := by
    decide +kernel
  have hinvoked : ((nested.invoke submitting).run exploding still).1.2.attempts < attemptBound := by
    decide +kernel
  refine ⟨hnested, ⟨_, hinvoked, ?_⟩, hfits, ?_⟩
  · obtain ⟨xs, h, -⟩ := Program.path_run exploding (nested.invoke submitting) still
    rcases hinvoke xs _ _ h hinvoked with ⟨hreturned, hv⟩ | ⟨_, _, _, hcall, _⟩
    · exact ⟨xs, hreturned ▸ h, hv⟩
    · cases hcall
  · obtain ⟨xs, v, hv, hevents⟩ := hrun exploding still hfits
    refine ⟨xs, v, hv, ?_⟩
    have hstill : still.events = [] := rfl
    rw [hstill, List.nil_append] at hevents
    rw [← hevents]
    decide +kernel

end Task

end LedgerBench
