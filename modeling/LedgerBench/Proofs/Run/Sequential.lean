import LedgerBench.Proofs.Run.Accounting
import LedgerBench.Proofs.Run.Progress
import LedgerBench.Proofs.Task.Plain
import Mathlib.Data.List.Flatten
/-!
Runs with one worker.

With one worker a run is a plain loop (`Bench.sequentially`): for each iteration and each entry of
the batch it expands the arguments once and attempts the call until it is settled, and passes on one
scope and one ledger. What is proved:
  1. `Runs.gets`: at any time the exchanges of a run have the answers that a client would get for
     the same effects, in the same order.
  2. `Act.eq_flatMap_of_pairwise`: where groups act in turn, the exchanges of a run are those of its
     groups, one group after the other.
  3. `sequential_of_run`: a run with one worker comes to an end, and in every schedule it then
     agrees with the plain loop, except that the errors of a call that panicked after a retry are
     missing.
  4. `sequential_of_panic`: a run with such a call, whose transient errors are not those of the
     loop.
-/

namespace LedgerBench

open Program

/-! ## The plain loop -/

namespace Ended

def panicked (e : Ended) : Bool :=
  match e.retried.result with
  | .panicked _ => true
  | .ok _ | .failed _ => false

def response? (e : Ended) : Option CallResponse :=
  match e.retried.result with
  | .ok settled => some {
      task := e.call.id, function := e.call.spec.function, transactionId := settled.transactionId
      payload := settled.payload.map Bytes.decodeLossy }
  | .failed _ | .panicked _ => none

def failure? (e : Ended) : Option FailedInvocation :=
  let failed := fun error : CallError =>
    some { task := e.call.id, function := e.call.spec.function, attempts := e.retried.attempts,
           error : FailedInvocation }
  match e.retried.result with
  | .ok _ => none
  | .failed error => failed error
  | .panicked reason => failed (CallError.panicked reason)

/-- The errors of the attempts that were followed by another one, each with the number of its
attempt. -/
def transientErrors (e : Ended) : List FailedInvocation :=
  e.retried.errors.mapIdx fun i error =>
    { task := e.call.id, function := e.call.spec.function,
      attempts := FailedInvocation.attemptNumber i, error }

theorem transientErrors_eq_nil_iff (e : Ended) :
    e.transientErrors = [] ↔ e.retried.errors = [] := by
  rw [transientErrors, List.mapIdx_eq_nil_iff]

end Ended

namespace Bench

variable {σ : Type}

/-- For each iteration, for each entry of the batch: calls it. -/
def sequentially (b : Bench σ) (s : Session σ) (specs : List CallSpec) (mode : CallMode) :
    StateM (Client σ) (List Ended) := do
  let rounds ← (List.range b.config.iterations).mapM fun iteration =>
    (callsOf s specs iteration).mapM (Client.call b.ledger.alone (b.binding mode))
  pure rounds.flatten

/-- What the plain loop does for a session: it starts with the counter of the session and no
variables. -/
def plainly (b : Bench σ) (s : Session σ) (specs : List CallSpec) (mode : CallMode) :
    List Ended × Client σ :=
  (b.sequentially s specs mode).run { scope := s.scope, ledger := s.ledger }

end Bench

/-! ## A run as a client -/

/-- The request that an exchange sends to the ledger. -/
def Program.Exchange.request? : Exchange → Option Request
  | ⟨.submit request, _⟩ | ⟨.query request, _⟩ => some request
  | _ => none

/-- The requests that some groups sent, in order. -/
def Act.requests (acts : List Act) : List Request := acts.filterMap fun a => a.exchange.request?

theorem Act.requests_append (xs ys : List Act) : requests (xs ++ ys) = requests xs ++ requests ys :=
  List.filterMap_append

namespace World

variable {σ : Type} (w : World σ)

/-- A client in the place of a world, with the requests it sent before. -/
def client (requests : List Request) : Client σ where
  scope := w.scope
  ledger := w.ledger
  requests := requests

/-- Where nothing was sent, the client has sent what it had sent before. -/
theorem gets_unsent {service : Service σ} {w : World σ} {before : Client σ} {xs : List Exchange}
    {requests : List Request} (h : Client.Gets service before xs (w.client requests)) :
    Client.Gets service before xs (w.client (requests ++ [])) := by
  rwa [List.append_nil]

theorem gets_answer (service : Service σ) (group : Nat) (effect : Effect)
    (requests : List Request) :
    Client.Gets service (w.client requests) [⟨effect, (w.answer service effect).answer⟩]
      ((w.answer service effect).world.client
        (requests ++ Act.requests [⟨group, effect, (w.answer service effect).answer⟩])) := by
  cases effect with
  | submit request => exact .answered rfl (.nil _)
  | query request => exact .answered rfl (.nil _)
  | now => exact gets_unsent (.now w.clock (.nil _))
  | resolve form body => exact gets_unsent (.answered rfl (.nil _))
  | sleep delay => exact gets_unsent (.answered rfl (.nil _))
  | emit event => exact gets_unsent (.answered rfl (.nil _))

/-- A world whose ledger is in another state. -/
def withLedger (state : σ) : World σ := { w with ledger := state }

/-- What is no request is answered without the ledger. -/
theorem answer_of_uncalled {effect : Effect} (h : effect.call? = none)
    (service other : Service σ) : w.answer service effect = w.answer other effect := by
  cases effect <;> first | rfl | cases h

/-- Where nothing came between its arrival and its answer, a request is answered as if it were
alone. -/
theorem answer_of_arrived (ledger : Ledger σ) {effect : Effect} {mode : CallMode}
    {request : Request} (h : effect.call? = some (mode, request)) {state : σ}
    (hstate : w.ledger = (ledger.arrive mode request state).next) :
    (w.answer (ledger.arrive mode request state).service effect).answer
        = ((w.withLedger state).answer ledger.alone effect).answer ∧
      (w.answer (ledger.arrive mode request state).service effect).world
        = ((w.withLedger state).answer ledger.alone effect).world := by
  obtain ⟨scope, now, clock, reported⟩ := w
  obtain rfl : now = (ledger.arrive mode request state).next := hstate
  cases effect <;> cases h <;> exact ⟨rfl, rfl⟩

end World

namespace Course

variable {σ : Type} {ledger : Ledger σ} {c later : Course σ} {acts : List Act} {state : σ}

/-- Where the ledger of a run stands but for the request that is under way. -/
inductive StandsAt (ledger : Ledger σ) (c : Course σ) : σ → Prop where
  | idle (h : ∀ (group : Nat) (g : GroupCourse σ), c.groups[group]? = some g → g.service = none) :
      StandsAt ledger c c.world.ledger
  | underWay {state : σ} {group : Nat} {effect : Effect} {next : effect.Answer → Program Task}
      {wakeAt : Duration} {mode : CallMode} {request : Request}
      (hg : c.groups[group]? = some {
        todo := .act effect next, wakeAt
        service := some (ledger.arrive mode request state).service })
      (hcall : effect.call? = some (mode, request))
      (hledger : c.world.ledger = (ledger.arrive mode request state).next)
      (hr : c.isRunning group = true)
      (hothers : ∀ (other : Nat) (g : GroupCourse σ), other ≠ group →
        c.groups[other]? = some g → g.service = none) :
      StandsAt ledger c state

namespace StandsAt

/-- Where no group has anything left to do, no request is under way. -/
theorem eq_of_done (h : c.StandsAt ledger state)
    (hdone : ∀ (group : Nat) (g : GroupCourse σ), c.groups[group]? = some g → g.isDone = true) :
    state = c.world.ledger := by
  cases h with
  | idle h => rfl
  | underWay hg hcall hledger hr hothers => cases hdone _ _ hg

/-- A step that groups and ledger do not notice, while the only worker goes on. -/
theorem of_still (h : c.StandsAt ledger state) (hgroups : later.groups = c.groups)
    (hledger : later.world.ledger = c.world.ledger)
    (hruns : ∀ (group : Nat) (g : GroupCourse σ), c.groups[group]? = some g → g.isDone = false →
      c.isRunning group = true → later.isRunning group = true) :
    later.StandsAt ledger state := by
  cases h with
  | idle h =>
    rw [← hledger]
    exact .idle (hgroups.symm ▸ h)
  | underWay hg hcall hstate hr hothers =>
    exact .underWay (hgroups.symm ▸ hg) hcall (hledger.trans hstate) (hruns _ _ hg rfl hr)
      (hgroups.symm ▸ hothers)

/-- A request that arrives where none is under way. -/
theorem send {group : Nat} {effect : Effect} {next : effect.Answer → Program Task}
    {wakeAt : Duration} {mode : CallMode} {request : Request}
    (hidle : ∀ (group : Nat) (g : GroupCourse σ), c.groups[group]? = some g → g.service = none)
    (hg : c.groups[group]? = some { todo := .act effect next, wakeAt, service := none })
    (hcall : effect.call? = some (mode, request)) (hr : c.isRunning group = true) :
    (c.send group (.act effect next) (ledger.arrive mode request c.world.ledger)).StandsAt ledger
      c.world.ledger := by
  obtain ⟨hlt, -⟩ := List.getElem?_eq_some_iff.mp hg
  refine .underWay (List.getElem?_set_self hlt) hcall rfl hr fun other g hne ho => ?_
  exact hidle other g ((List.getElem?_set_ne hne.symm).symm.trans ho)

/-- A group whose effect was answered has no request under way. -/
theorem goOn {α : Type} {group : Nat} {next : α → Program Task} {a : Answered σ α}
    (hothers : ∀ (other : Nat) (g : GroupCourse σ), other ≠ group →
      c.groups[other]? = some g → g.service = none) :
    (c.goOn group next a).StandsAt ledger a.world.ledger := by
  refine .idle fun other g ho => ?_
  have hset : (c.groups.set group _)[other]? = some g := ho
  by_cases hsame : other = group
  · subst hsame
    rw [List.getElem?_set] at hset
    split at hset
    · split at hset <;> cases hset
      rfl
    · contradiction
  · exact hothers other g hsame ((List.getElem?_set_ne (Ne.symm hsame)).symm.trans hset)

end StandsAt

/-- With one worker, a step has the answers that a client gets who asks one thing at a time. -/
theorem Step.gets (h : Step ledger c acts later) (hstaffed : c.Staffed 1)
    (hc : c.StandsAt ledger state) (requests : List Request) :
    ∃ state', later.StandsAt ledger state' ∧
      Client.Gets ledger.alone ((c.world.withLedger state).client requests)
        (acts.map Act.exchange)
        ((later.world.withLedger state').client (requests ++ Act.requests acts)) := by
  -- The only worker stays with a group that still has something to do.
  have hruns : ∀ (group : Nat) (g : GroupCourse σ), c.groups[group]? = some g → g.isDone = false →
      c.isRunning group = true → later.isRunning group = true := by
    intro group g hg hundone hr
    rcases (hstaffed.step_of_running h hr).2 with hlater | ⟨g', hg', hdone⟩
    · exact hlater
    · obtain rfl := Option.some.inj (hg.symm.trans hg')
      rw [hundone] at hdone
      cases hdone
  cases h with
  | submit hmay =>
    have hworld := c.submitNext_world
    refine ⟨state, hc.of_still c.submitNext_groups (by rw [hworld]) hruns, ?_⟩
    rw [hworld]
    exact World.gets_unsent (.nil _)
  | work ha he => exact ⟨state, hc.of_still rfl rfl hruns, World.gets_unsent (.nil _)⟩
  | record hr => exact ⟨state, hc.of_still rfl rfl hruns, World.gets_unsent (.nil _)⟩
  | wait clock => exact ⟨state, hc.of_still rfl rfl hruns, World.gets_unsent (.nil _)⟩
  | @send group effect next wakeAt mode request hg hcall hr =>
    cases hc with
    | idle hidle => exact ⟨_, .send hidle hg hcall hr, World.gets_unsent (.nil _)⟩
    | underWay hg' hcall' hledger hr' hothers =>
      -- The group that the request under way is from is the only one on a worker.
      obtain rfl := hstaffed.eq_of_running hr hr'
      cases Option.some.inj (hg.symm.trans hg')
  | @act group effect next wakeAt service? service hg hserves hr =>
    have hgets := (c.world.withLedger state).gets_answer ledger.alone group effect requests
    cases hc with
    | idle hidle =>
      obtain rfl : service? = none := hidle group _ hg
      have huncalled := hserves.resolve_left (fun h => nomatch h)
      refine ⟨_, .goOn fun other g _ => hidle other g, ?_⟩
      rw [c.world.answer_of_uncalled huncalled service ledger.alone]
      exact hgets
    | underWay hg' hcall hledger hr' hothers =>
      obtain rfl := hstaffed.eq_of_running hr hr'
      cases Option.some.inj (hg.symm.trans hg')
      obtain rfl := Option.some.inj (hserves.resolve_right (by rw [hcall]; exact nofun))
      obtain ⟨hanswer, hworld⟩ := c.world.answer_of_arrived ledger hcall hledger
      refine ⟨_, .goOn hothers, ?_⟩
      rw [← hanswer, ← hworld] at hgets
      exact hgets

/-- The exchanges of a run with one worker have the answers that a client gets. -/
theorem Runs.gets (h : Runs ledger c acts later) (hstaffed : c.Staffed 1)
    (hc : c.StandsAt ledger state) (requests : List Request) :
    ∃ state', later.StandsAt ledger state' ∧
      Client.Gets ledger.alone ((c.world.withLedger state).client requests)
        (acts.map Act.exchange)
        ((later.world.withLedger state').client (requests ++ Act.requests acts)) := by
  induction h generalizing state requests with
  | start c => exact ⟨state, hc, World.gets_unsent (.nil _)⟩
  | step head tail ih =>
    obtain ⟨mid, hmid, hhead⟩ := head.gets hstaffed hc requests
    obtain ⟨last, hlast, htail⟩ := ih (hstaffed.of_step head).1 hmid _
    refine ⟨last, hlast, ?_⟩
    rw [List.map_append, Act.requests_append, ← List.append_assoc]
    exact hhead.append htail

end Course

/-! ## Groups in turn -/

namespace Act

variable {acts : List Act}

theorem filter_lt_succ_of_pairwise (h : acts.Pairwise fun a b => a.group ≤ b.group) (k : Nat) :
    (acts.filter fun a => a.group < k + 1) = (acts.filter fun a => a.group < k) ++ acts.filter
      fun a => a.group = k := by
  induction h with
  | nil => rfl
  | @cons a rest ha hrest ih =>
    -- The groups of what comes after `a` are not before its own.
    have hnone : ∀ n, n ≤ a.group → (rest.filter fun b => b.group < n) = [] := by
      intro n hn
      refine List.filter_eq_nil_iff.mpr fun b hb hlt => ?_
      exact absurd (Nat.le_trans hn (ha b hb)) (Nat.not_le_of_lt (of_decide_eq_true hlt))
    have kept : ∀ {p : Act → Prop} [DecidablePred p], p a →
        (a :: rest).filter (fun b => p b) = a :: rest.filter fun b => p b :=
      fun hp => List.filter_cons_of_pos (decide_eq_true hp)
    have dropped : ∀ {p : Act → Prop} [DecidablePred p], ¬ p a →
        (a :: rest).filter (fun b => p b) = rest.filter fun b => p b :=
      fun hp => List.filter_cons_of_neg fun h => hp (of_decide_eq_true h)
    rcases Nat.lt_trichotomy a.group k with hlt | heq | hgt
    · rw [kept (Nat.lt_succ_of_lt hlt), kept hlt, dropped (Nat.ne_of_lt hlt), ih, List.cons_append]
    · rw [kept (Nat.lt_succ_of_le (Nat.le_of_eq heq)),
        dropped (Nat.not_lt_of_le (Nat.le_of_eq heq.symm)), kept heq, ih,
        hnone k (Nat.le_of_eq heq.symm), List.nil_append, List.nil_append]
    · rw [dropped (Nat.not_lt_of_le hgt), dropped (Nat.not_lt_of_le (Nat.le_of_lt hgt)),
        dropped (Nat.ne_of_gt hgt), ih]

/-- Where groups act in turn, their exchanges come one group after the other. -/
theorem eq_flatMap_of_pairwise {n : Nat} (h : acts.Pairwise fun a b => a.group ≤ b.group)
    (hlt : ∀ a ∈ acts, a.group < n) :
    acts.map Act.exchange = (List.range n).flatMap fun g => ofGroup g acts := by
  have below : ∀ k, (acts.filter fun a => a.group < k) = (List.range k).flatMap fun g =>
      acts.filter fun a => a.group = g := by
    intro k
    induction k with
    | zero => simp
    | succ k ih =>
      rw [filter_lt_succ_of_pairwise h, ih, List.range_succ, List.flatMap_append,
        List.flatMap_singleton]
  have hall : (acts.filter fun a => a.group < n) = acts :=
    List.filter_eq_self.mpr fun a ha => decide_eq_true (hlt a ha)
  calc acts.map Act.exchange
      = ((List.range n).flatMap fun g => acts.filter fun a => a.group = g).map Act.exchange := by
        rw [← below n, hall]
    _ = (List.range n).flatMap fun g => ofGroup g acts := List.map_flatMap

end Act

/-! ## What is reported of a call -/

namespace Invocation

variable {binding : Binding} (i : Invocation binding)

theorem response?_ended : i.ended.response? = if i.outcome.isOk then some
    (CallResponse.ofOutcome i.outcome) else none := by
  unfold Ended.response? Outcome.isOk outcome CallTask.outcome ended Retried.reported
  cases i.retried.result <;> rfl

theorem failure?_ended : i.ended.failure? = i.outcome.failure? := by
  unfold Ended.failure? Outcome.failure? outcome CallTask.outcome ended Retried.reported
  cases i.retried.result <;> rfl

/-- The errors of retried attempts are reported unless the call panicked. -/
theorem transientErrors_ended : RunStatistics.retriedErrors i.outcome = if i.ended.panicked then []
    else i.ended.transientErrors := by
  unfold RunStatistics.retriedErrors Ended.panicked Ended.transientErrors outcome CallTask.outcome
    ended Retried.reported
  cases i.retried.result <;> rfl

end Invocation

/-- What is listed of some outcomes is what a plain loop lists of their calls. -/
theorem lists_of_outcomes {binding : Binding} (is : List (Invocation binding)) :
    ((is.map Invocation.outcome).filter Outcome.isOk).map CallResponse.ofOutcome =
      (is.map Invocation.ended).filterMap Ended.response? ∧
      (is.map Invocation.outcome).filterMap Outcome.failure? =
        (is.map Invocation.ended).filterMap Ended.failure? ∧
      (is.map Invocation.outcome).flatMap RunStatistics.retriedErrors
        = ((is.map Invocation.ended).filter fun e => !e.panicked).flatMap
          Ended.transientErrors := by
  induction is with
  | nil => exact ⟨rfl, rfl, rfl⟩
  | cons i rest ih =>
    obtain ⟨hresponses, hfailures, herrors⟩ := ih
    refine ⟨?_, ?_, ?_⟩
    · cases hok : i.outcome.isOk <;> simp [i.response?_ended, hok, hresponses]
    · simp [List.filterMap_cons, i.failure?_ended, hfailures]
    · cases hp : i.ended.panicked <;> simp [i.transientErrors_ended, hp, herrors]

/-- Leaving some items out changes nothing exactly if there is nothing of them. -/
theorem flatMap_filter_eq_iff {α β : Type} (p : α → Bool) (f : α → List β) (l : List α) :
    (l.filter p).flatMap f = l.flatMap f ↔ ∀ a ∈ l, p a = false → f a = [] := by
  induction l with
  | nil => simp
  | cons a rest ih =>
    rw [List.forall_mem_cons, ← ih]
    cases hp : p a with
    | true => simp [hp]
    | false =>
      have hle : ((rest.filter p).flatMap f).length ≤ (rest.flatMap f).length :=
        (List.filter_sublist.flatMap f).length_le
      rw [List.filter_cons_of_neg (by rw [hp]; exact Bool.false_ne_true), List.flatMap_cons]
      constructor
      · intro h
        have hlength := congrArg List.length h
        rw [List.length_append] at hlength
        have hnil : f a = [] := List.length_eq_zero_iff.mp (by omega)
        rw [hnil] at h
        exact ⟨fun _ => hnil, h⟩
      · rintro ⟨hnil, h⟩
        rw [hnil rfl, h]
        rfl

/-! ## Runs with one worker -/

namespace Bench

variable {σ : Type} {b : Bench σ} {s : Session σ} {specs : List CallSpec} {mode : CallMode}
  {startedAt : Timestamp} {start later : Course σ} {acts : List Act} {labels : List RunLabel}

/-- The groups of a run, one after the other, are rounds of the plain loop. -/
theorem run_rounds {service : Service σ} {binding : Binding} {client after : Client σ}
    {rounds : List Nat} {calls : Nat → List CallTask} {is : Nat → List (Invocation binding)}
    {exchanges : Nat → List Exchange} (hcalls : ∀ g ∈ rounds, (is g).map Invocation.call = calls g)
    (hexchanges : ∀ g ∈ rounds, ∃ id, exchanges g = (is g).flatMap Invocation.exchanges ++
      [Task.groupReport id (is g)])
    (h : Client.Gets service client (rounds.flatMap exchanges) after) :
    (rounds.mapM fun g => (calls g).mapM (Client.call service binding)).run client
      = (rounds.map fun g => (is g).map Invocation.ended, after) := by
  induction rounds generalizing client with
  | nil =>
    rw [h.eq_of_nil]
    rfl
  | cons g rest ih =>
    obtain ⟨hcall, hcalls⟩ := List.forall_mem_cons.mp hcalls
    obtain ⟨⟨id, hfirst⟩, hrest⟩ := List.forall_mem_cons.mp hexchanges
    rw [List.flatMap_cons, hfirst, List.append_assoc] at h
    obtain ⟨mid, hgroup, htail⟩ := h.of_append
    have hround := Invocation.run_calls hgroup
    rw [hcall] at hround
    rw [List.mapM_cons, Client.run_bind_of_run hround,
      Client.run_bind_of_run (ih hcalls hrest htail.of_emit)]
    rfl

/-- A run and a plain loop did the same, but for the errors of calls that panicked after a retry. -/
structure Agrees (stats : RunStatistics) (acts : List Act) (later : Course σ) (ends : List Ended)
    (client : Client σ) : Prop where
  requests : Act.requests acts = client.requests
  scope : later.world.scope = client.scope
  ledger : later.world.ledger = client.ledger
  responses : stats.responses = ends.filterMap Ended.response?
  failures : stats.failures = ends.filterMap Ended.failure?
  transientErrors :
    stats.transientErrors = (ends.filter fun e => !e.panicked).flatMap Ended.transientErrors

/-- A complete run whose groups acted in turn, as invocations one after the other. What is read off
the exchanges, and not off the reports of groups, is read off the invocations. -/
theorem Complete.exists_rounds (h : b.Complete s specs mode start acts later)
    (hturn : acts.Pairwise fun a b => a.group ≤ b.group) :
    ∃ is : Nat → List (Invocation (b.binding mode)),
      (∀ g ∈ List.range b.config.iterations, (is g).map Invocation.call = callsOf s specs g) ∧
      (∀ g ∈ List.range b.config.iterations, ∃ id,
        Act.ofGroup g acts = (is g).flatMap Invocation.exchanges ++ [Task.groupReport id (is g)]) ∧
      acts.map Act.exchange = ((List.range b.config.iterations).flatMap fun g =>
          Act.ofGroup g acts) ∧
      ∀ {β : Type} (f : Exchange → Option β), (∀ id g, f (Task.groupReport id (is g)) = none) →
        (acts.map Act.exchange).filterMap f =
          (((List.range b.config.iterations).flatMap is).flatMap Invocation.exchanges).filterMap
          f := by
  obtain ⟨is, his⟩ := h.exists_finished
  have hxs : ∀ g ∈ List.range b.config.iterations, ∃ id,
      Act.ofGroup g acts = (is g).flatMap Invocation.exchanges ++ [Task.groupReport id (is g)] :=
    fun g hg => (his g (List.mem_range.mp hg)).exchanges
  have hexchanges := Act.eq_flatMap_of_pairwise hturn h.numbered
  refine ⟨is, fun g hg => (his g (List.mem_range.mp hg)).calls, hxs, hexchanges, fun f hf => ?_⟩
  rw [hexchanges, List.flatMap_assoc, List.filterMap_flatMap, List.filterMap_flatMap]
  refine List.flatMap_congr fun g hg => ?_
  obtain ⟨id, hid⟩ := hxs g hg
  rw [hid, List.filterMap_append, List.filterMap_cons_none (hf id g)]
  exact List.append_nil _

/-- The outcomes of a run whose events are those of some invocations. -/
theorem outcomes_of_exchanges {binding : Binding} {js : List (Invocation binding)}
    (h : (acts.map Act.exchange).filterMap (fun x => x.event?.bind Event.outcome?) =
      (js.flatMap Invocation.exchanges).filterMap fun x => x.event?.bind Event.outcome?) :
    outcomes (Act.events acts) = js.map Invocation.outcome := by
  rw [← List.filterMap_filterMap, ← List.filterMap_filterMap] at h
  refine h.trans ?_
  show outcomes (Program.events _) = _
  rw [Task.events_flatMap_exchanges, Task.outcomes_reports]

/-- A complete run with one worker has the answers that a client gets. -/
theorem Complete.gets (h : b.Complete s specs mode start acts later)
    (hbegun : b.Begun s specs mode startedAt start) (hruns : Course.Runs b.ledger start acts later)
    (hstaffed : start.Staffed 1) :
    Client.Gets b.ledger.alone { scope := s.scope, ledger := s.ledger } (acts.map Act.exchange)
      (later.world.client (Act.requests acts)) := by
  have hidle : start.StandsAt b.ledger start.world.ledger := by
    refine .idle fun group g hg => ?_
    rw [hbegun.groups, List.getElem?_map, Option.map_eq_some_iff] at hg
    obtain ⟨t, -, rfl⟩ := hg
    rfl
  obtain ⟨state, hstate, hgets⟩ := hruns.gets hstaffed hidle []
  obtain rfl := hstate.eq_of_done fun group g hg => by
    have hlt : group < b.config.iterations := h.groups ▸ (List.getElem?_eq_some_iff.mp hg).1
    obtain ⟨is, hf⟩ := h.finished group hlt
    obtain ⟨g', hg', hdone⟩ := hbegun.isDone_of_finished hruns hlt hf
    obtain rfl := Option.some.inj (hg.symm.trans hg')
    exact hdone
  rw [hbegun.world] at hgets
  exact hgets

/-- A complete run whose groups acted in turn is the plain loop. -/
theorem Complete.agrees (h : b.Complete s specs mode start acts later)
    (hbegun : b.Begun s specs mode startedAt start) (hruns : Course.Runs b.ledger start acts later)
    (hstaffed : start.Staffed 1) (hturn : acts.Pairwise fun a b => a.group ≤ b.group) :
    Agrees later.statistics acts later (b.plainly s specs mode).1 (b.plainly s specs mode).2 := by
  obtain ⟨is, hcalls, hxs, hexchanges, hread⟩ := h.exists_rounds hturn
  -- The loop makes the same calls, and gets the same answers.
  have hloop : b.plainly s specs mode =
      (((List.range b.config.iterations).flatMap is).map Invocation.ended,
        later.world.client (Act.requests acts)) := by
    have hgets := h.gets hbegun hruns hstaffed
    rw [hexchanges] at hgets
    have hrounds := run_rounds hcalls hxs hgets
    unfold plainly sequentially
    rw [Client.run_bind_of_run hrounds, List.map_flatMap, List.flatMap_def]
    rfl
  -- The outcomes are those of these calls, in the same order.
  have houtcomes := outcomes_of_exchanges (hread _ fun _ _ => rfl)
  obtain ⟨hresponses, hfailures, herrors⟩ :=
    lists_of_outcomes ((List.range b.config.iterations).flatMap is)
  rw [hloop, h.statistics, hbegun.statistics, RunStatistics.recordAll_eq, houtcomes]
  exact ⟨rfl, rfl, rfl, hresponses, hfailures, herrors⟩

/-- A run with one worker is the plain loop. It comes to an end, and wherever it ends it has
statistics and agrees with the loop on everything but transient errors; on these it agrees exactly
if no call panicked after a retry. -/
theorem sequential_of_run {p : BenchPlan σ} (hp : p.build = .ok b) (hone : b.config.concurrency = 1)
    (hb : b.begin s specs mode startedAt = .ok start) :
    (∃ labels, start.run b.ledger labels = some (start.drive b.ledger) ∧
      (start.drive b.ledger).Stopped b.ledger) ∧
      ∀ labels later, start.run b.ledger labels = some later → later.Stopped b.ledger →
        ∀ finishedAt, ∃ stats,
        conclude later finishedAt = .ok stats ∧
        Agrees stats (start.history b.ledger labels) later (b.plainly s specs mode).1
          (b.plainly s specs mode).2 ∧
        (stats.transientErrors = (b.plainly s specs mode).1.flatMap Ended.transientErrors ↔
          ∀ e ∈ (b.plainly s specs mode).1, e.panicked = true → e.retried.errors = []) := by
  obtain ⟨hlimits, hroom⟩ := BenchPlan.limits_of_build hp
  have hiterations : 0 < b.config.iterations := hlimits .iterations
  have hbegun := begun_of_begin hb
  have hline := in_line_of_begin hroom hb
  have hstaffed : start.Staffed 1 := by
    have h := hbegun.staffed
    rwa [hone] at h
  refine ⟨hbegun.exists_run_drive hline (by omega), fun labels later hr hstopped finishedAt => ?_⟩
  have hruns := Course.runs_of_run hr
  have hcomplete := hbegun.complete_of_stopped hline hruns hstopped
  have hagrees := hcomplete.agrees hbegun hruns hstaffed (hruns.in_turn hstaffed hline)
  refine ⟨_, by rw [conclude, hcomplete.accepted], ?_, ?_⟩
  · exact ⟨hagrees.requests, hagrees.scope, hagrees.ledger, hagrees.responses, hagrees.failures,
      hagrees.transientErrors⟩
  · show later.statistics.transientErrors = _ ↔ _
    rw [hagrees.transientErrors, flatMap_filter_eq_iff]
    simp only [Bool.not_eq_false', Ended.transientErrors_eq_nil_iff]

/-! ### One worker and two groups -/

/-- A ledger that does not respond to its first call, commits the second one, and panics on every
other one. -/
def wavering : Ledger Nat := Service.atOnce {
  submit _ calls := {
    reply := if calls = 0 then .failed (.noResponse "timeout")
      else if calls = 1 then .answered { transactionId := "tx", code := .valid }
        else .panicked "bang"
    next := calls + 1 }
  query _ calls := { reply := .panicked "bang", next := calls + 1 } }

/-- A plan with one worker. -/
def serialPlan (ledger : Ledger Nat) (iterations : Nat) : BenchPlan Nat where
  config := { concurrency := 1, iterations }
  ledger := some ledger
  handlers := some []

def serial (ledger : Ledger Nat) (iterations : Nat) : Bench Nat where
  config := { concurrency := 1, iterations }
  policy := {}
  ledger := ledger
  handlers := []

theorem build_serialPlan {ledger : Ledger Nat} {iterations : Nat}
    (h : BenchPlan.checkConfig (serialPlan ledger iterations).config =
      .ok (serial ledger iterations).policy) :
    (serialPlan ledger iterations).build = .ok (serial ledger iterations) :=
  BenchPlan.build_of_checkConfig rfl rfl h

def counting : List CallSpec := [{ function := "put", args := ["k$seq()"] }]

/-- A schedule in which the second group waits in the queue until the first one is done. -/
def oneByOne : List RunLabel :=
  [.submit, .submit, .work 0 .check, .work 0 .lock, .work 0 .receive] ++ List.replicate 6
    (RunLabel.act 0) ++ [.wait]
    ++ List.replicate 5 (RunLabel.act 0) ++ [.work 0 .finish, .work 0 .check, .work 0 .lock,
      .work 0 .receive]
    ++ List.replicate 8 (RunLabel.act 1) ++ List.replicate 6 .record

theorem run_oneByOne :
    ∃ start, (serial wavering 2).begin fresh counting .submit ⟨0⟩ = .ok start ∧
      ∃ later, start.run (serial wavering 2).ledger oneByOne = some later ∧
        later.isOver = true := by
  refine ⟨_, rfl, ?_⟩
  apply exists_of_any
  decide +kernel

/-- The loop retries the first call, and the second one panics on its first attempt. -/
theorem sequential_of_run_oneByOne :
    ∃ start later stats, (serialPlan wavering 2).build = .ok (serial wavering 2) ∧
      (serial wavering 2).begin fresh counting .submit ⟨0⟩ = .ok start ∧
      (start.drive (serial wavering 2).ledger).Stopped (serial wavering 2).ledger ∧
      start.run (serial wavering 2).ledger oneByOne = some later ∧
      later.Stopped (serial wavering 2).ledger ∧
      conclude later ⟨1⟩ = .ok stats ∧
      Agrees stats (start.history (serial wavering 2).ledger oneByOne) later
        ((serial wavering 2).plainly fresh counting .submit).1
        ((serial wavering 2).plainly fresh counting .submit).2 ∧
      ((serial wavering 2).plainly fresh counting .submit).1.map Ended.panicked = [false, true] ∧
      stats.transientErrors.map FailedInvocation.error =
        [(TransportError.noResponse "timeout").toCallError] ∧
      stats.transientErrors = ((serial wavering 2).plainly fresh counting .submit).1.flatMap
        Ended.transientErrors := by
  have hbuild : (serialPlan wavering 2).build = .ok (serial wavering 2) :=
    build_serialPlan (by decide +kernel)
  obtain ⟨start, hb, later, hr, hover⟩ := run_oneByOne
  obtain ⟨⟨labels, -, hdrive⟩, hall⟩ := sequential_of_run hbuild rfl hb
  obtain ⟨stats, hstats, hagrees, hiff⟩ := hall oneByOne later hr (.inl hover) ⟨1⟩
  have herrors := hiff.mpr (by decide +kernel)
  refine ⟨start, later, stats, hbuild, hb, hdrive, hr, .inl hover, hstats, hagrees,
    by decide +kernel, ?_, herrors⟩
  rw [herrors]
  decide +kernel

/-! ### A loop that goes past a panic -/

/-- Where the first call panics on its second attempt, the loop lists the error of its first attempt
and the run does not. -/
theorem sequential_of_panic :
    (serialPlan faltering 1).build = .ok (serial faltering 1) ∧
      ∃ start, (serial faltering 1).begin fresh [{ function := "put" }] .submit ⟨0⟩ = .ok start ∧
        ∃ later, start.run (serial faltering 1).ledger inOrder = some later ∧ later.isOver = true ∧
          (((serial faltering 1).plainly fresh [{ function := "put" }] .submit).1.flatMap
            Ended.transientErrors).map FailedInvocation.error
            = [(TransportError.noResponse "timeout").toCallError] ∧
          later.statistics.transientErrors = [] := by
  refine ⟨build_serialPlan (by decide +kernel), _, rfl, ?_⟩
  apply exists_of_any
  decide +kernel

end Bench

end LedgerBench
