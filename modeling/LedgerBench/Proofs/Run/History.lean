import LedgerBench.Proofs.Task.Path
import LedgerBench.Run.Course
import Mathlib.Data.List.Perm.Basic
/-!
Histories of runs.

The history of a schedule is what the groups did in it: the exchanges of all groups in the order in
which they happened, each with the number of its group (`Course.history`). Everything else in a
schedule moves jobs, events or the clock. What is proved:
  1. `step_cases`: what a step can do. Each kind of step is a constructor of `Step`, with what made
     it possible.
  2. `runs_of_run`: a schedule is a chain of steps that makes its history. `Runs.split` cuts the
     chain at any exchange.
  3. `Act.events_perm`: what is reported in a history is what each group reported, in some order.
  4. `Runs.after`: a group has come along its program by exactly its own part of the history,
     whatever the other groups did in between.
  5. `Runs.recorded`: the statistics are those of the events recorded so far, and what was reported
     and not recorded is still in the channel, in order.
-/

namespace LedgerBench

open Program

structure Act where
  group : Nat
  exchange : Exchange
  deriving DecidableEq

/-- The exchanges of one group, in order. -/
def Act.ofGroup (group : Nat) (acts : List Act) : List Exchange :=
  (acts.filter fun a => a.group = group).map Act.exchange

/-- The events that some groups reported, in order. -/
def Act.events (acts : List Act) : List Event := Program.events (acts.map Act.exchange)

theorem Act.ofGroup_append (group : Nat) (xs ys : List Act) :
    ofGroup group (xs ++ ys) = ofGroup group xs ++ ofGroup group ys := by
  simp only [ofGroup, List.filter_append, List.map_append]

theorem Act.events_append (xs ys : List Act) : events (xs ++ ys) = events xs ++ events ys := by
  simp only [events, List.map_append, Program.events_append]

/-- Some exchanges of numbered groups, sorted by group. -/
theorem Act.perm_groups {n : Nat} {acts : List Act} (h : ∀ a ∈ acts, a.group < n) :
    acts.Perm ((List.range n).flatMap fun g => acts.filter fun a => a.group = g) := by
  -- The exchanges of the first `k` groups, for growing `k`.
  have below : ∀ k, (acts.filter fun a => a.group < k).Perm
      ((List.range k).flatMap fun g => acts.filter fun a => a.group = g) := by
    intro k
    induction k with
    | zero => simp
    | succ k ih =>
      have hlow : (acts.filter fun a => a.group < k + 1).filter (fun a => a.group < k)
          = acts.filter fun a => a.group < k := by
        rw [List.filter_filter]
        congr 1
        funext a
        simp only [← Bool.decide_and, decide_eq_decide]
        omega
      have htop : (acts.filter fun a => a.group < k + 1).filter (fun a => !decide (a.group < k))
          = acts.filter fun a => a.group = k := by
        rw [List.filter_filter]
        congr 1
        funext a
        simp only [← decide_not, ← Bool.decide_and, decide_eq_decide]
        omega
      have hsplit := List.filter_append_perm (fun a : Act => decide (a.group < k))
        (acts.filter fun a => a.group < k + 1)
      rw [hlow, htop] at hsplit
      rw [List.range_succ, List.flatMap_append, List.flatMap_singleton]
      exact hsplit.symm.trans (ih.append_right _)
  have hall : acts.filter (fun a => a.group < n) = acts :=
    List.filter_eq_self.mpr fun a ha => decide_eq_true (h a ha)
  have hn := below n
  rwa [hall] at hn

/-- What some groups reported, sorted by group. -/
theorem Act.events_perm {n : Nat} {acts : List Act} (h : ∀ a ∈ acts, a.group < n) :
    (events acts).Perm ((List.range n).flatMap fun g => Program.events (ofGroup g acts)) := by
  have hp := ((perm_groups h).map Act.exchange).filterMap Exchange.event?
  rw [List.map_flatMap, List.filterMap_flatMap] at hp
  exact hp

/-- The outcomes that some groups reported, sorted by group. -/
theorem Act.outcomes_perm {n : Nat} {acts : List Act} (h : ∀ a ∈ acts, a.group < n) :
    (outcomes (events acts)).Perm ((List.range n).flatMap fun g =>
        outcomes (Program.events (ofGroup g acts))) := by
  have hp := (events_perm h).filterMap Event.outcome?
  rw [List.filterMap_flatMap] at hp
  exact hp

/-- The events of a kind that some groups reported are those that each of them reported. -/
theorem Act.countP_events {n : Nat} {acts : List Act} (h : ∀ a ∈ acts, a.group < n)
    (p : Event → Bool) :
    (events acts).countP p = ((List.range n).map fun g =>
        (Program.events (ofGroup g acts)).countP p).sum := by
  rw [(events_perm h).countP_eq, List.countP_flatMap]
  rfl

namespace Course

variable {σ : Type}

/-- The exchange that a label makes, if it makes one. A request that arrives is none yet. -/
def acts (ledger : Ledger σ) (c : Course σ) : RunLabel → List Act
  | .act group =>
    match c.groups[group]? with
    | some { todo := .act effect _, service, .. } =>
      match GroupCourse.unsent? effect service with
      | some _ => []
      | none => [⟨group, effect, (c.world.answer (service.getD ledger.alone) effect).answer⟩]
    | _ => []
  | _ => []

/-- The exchanges that a schedule makes, as far as it is possible. -/
def history (ledger : Ledger σ) (c : Course σ) : List RunLabel → List Act
  | [] => []
  | label :: rest =>
    match c.step ledger label with
    | some later => c.acts ledger label ++ later.history ledger rest
    | none => []

/-! ## What a step can do -/

/-- Submitting a group changes the queue and the count of submitted groups, and nothing that groups
can see. -/
@[simp] theorem submitNext_world (c : Course σ) : c.submitNext.world = c.world := by
  unfold submitNext
  split <;> rfl

@[simp] theorem submitNext_groups (c : Course σ) : c.submitNext.groups = c.groups := by
  unfold submitNext
  split <;> rfl

@[simp] theorem submitNext_statistics (c : Course σ) : c.submitNext.statistics = c.statistics := by
  unfold submitNext
  split <;> rfl

@[simp] theorem send_groups_length (c : Course σ) (group : Nat) (todo : Program Task)
    (a : Arrival σ) : (c.send group todo a).groups.length = c.groups.length := List.length_set

@[simp] theorem goOn_groups_length {α : Type} (c : Course σ) (group : Nat)
    (next : α → Program Task) (a : Answered σ α) :
    (c.goOn group next a).groups.length = c.groups.length := List.length_set

inductive Step (ledger : Ledger σ) (c : Course σ) : List Act → Course σ → Prop where
  | submit (h : c.maySubmit = true) : Step ledger c [] c.submitNext
  | work {worker : Nat} {move : WorkerMove} {executor : Executor Nat}
      (ha : c.admits worker move = true)
      (h : c.executor.step (.work 0 worker move) = some executor) :
      Step ledger c [] { c with executor }
  | send {group : Nat} {effect : Effect} {next : effect.Answer → Program Task} {wakeAt : Duration}
      {mode : CallMode} {request : Request}
      (hg : c.groups[group]? = some { todo := .act effect next, wakeAt, service := none })
      (hcall : effect.call? = some (mode, request)) (hr : c.isRunning group = true) :
      Step ledger c []
        (c.send group (.act effect next) (ledger.arrive mode request c.world.ledger))
  /-- What is no request is answered in the same way by any service. -/
  | act {group : Nat} {effect : Effect} {next : effect.Answer → Program Task} {wakeAt : Duration}
      {service? : Option (Service σ)} (service : Service σ)
      (hg : c.groups[group]? = some { todo := .act effect next, wakeAt, service := service? })
      (hserves : service? = some service ∨ effect.call? = none) (hr : c.isRunning group = true) :
      Step ledger c [⟨group, effect, (c.world.answer service effect).answer⟩]
        (c.goOn group next (c.world.answer service effect))
  | record {event : Event} {reported : List Event} (h : c.world.reported = reported ++ [event]) :
      Step ledger c [] { c with
        world := { c.world with reported }
        statistics := c.statistics.record event }
  | wait (clock : Duration) : Step ledger c [] { c with world := { c.world with clock } }

theorem step_act {ledger : Ledger σ} {c later : Course σ} {group : Nat}
    (h : c.act? ledger group = some later) :
    Step ledger c (c.acts ledger (.act group)) later := by
  unfold act? at h
  split at h
  · rename_i effect next wakeAt service? hg
    split at h
    · rename_i hready
      have hr := (Bool.and_eq_true_iff.mp hready).1
      cases service? with
      | some service =>
        obtain rfl := Option.some.inj h
        have hacts : c.acts ledger (.act group)
            = [⟨group, effect, (c.world.answer service effect).answer⟩] := by
          simp only [acts, hg, GroupCourse.unsent?, Option.getD_some]
        rw [hacts]
        exact .act service hg (.inl rfl) hr
      | none =>
        simp only [acts, hg, GroupCourse.unsent?] at h ⊢
        -- A request is still to arrive; anything else is answered at once.
        cases hcall : effect.call? with
        | some call =>
          rw [hcall] at h
          obtain rfl := Option.some.inj h
          exact .send hg hcall hr
        | none =>
          rw [hcall] at h
          obtain rfl := Option.some.inj h
          exact .act ledger.alone hg (.inr hcall) hr
    · cases h
  · cases h

theorem step_cases {ledger : Ledger σ} {c later : Course σ} {label : RunLabel}
    (h : c.step ledger label = some later) : Step ledger c (c.acts ledger label) later := by
  cases label with
  | submit =>
    have hsubmit : (if c.maySubmit then some c.submitNext else none) = some later := h
    split at hsubmit
    · rename_i hmay
      obtain rfl := Option.some.inj hsubmit
      exact .submit hmay
    · cases hsubmit
  | work worker move =>
    have hwork : (if c.admits worker move then
        (c.executor.step (.work 0 worker move)).map fun executor => { c with executor } else none) =
          some later := h
    split at hwork
    · rename_i ha
      obtain ⟨executor, he, rfl⟩ := Option.map_eq_some_iff.mp hwork
      exact .work ha he
    · cases hwork
  | act group => exact step_act h
  | record =>
    have hrecord : c.record? = some later := h
    unfold record? at hrecord
    split at hrecord
    · rename_i event he
      obtain rfl := Option.some.inj hrecord
      obtain ⟨reported, hr⟩ := List.getLast?_eq_some_iff.mp he
      have hdrop : c.world.reported.dropLast = reported := by rw [hr, List.dropLast_concat]
      rw [hdrop]
      exact .record hr
    · cases hrecord
  | wait =>
    have hwait : c.wait? = some later := h
    unfold wait? at hwait
    split at hwait
    · cases hwait
    · obtain rfl := Option.some.inj hwait
      exact .wait _

/-- A step with an exchange is that of a group on a worker, whose next effect is answered by the
service that its request has reached, if it is one. -/
theorem Step.of_singleton {ledger : Ledger σ} {c later : Course σ} {group : Nat} {effect : Effect}
    {answer : effect.Answer} (h : Step ledger c [⟨group, effect, answer⟩] later) :
    c.isRunning group = true ∧ (∃ g, c.groups[group]? = some g ∧ g.isDone = false) ∧
      ∃ service : Service σ, answer = (c.world.answer service effect).answer ∧
        later.world = (c.world.answer service effect).world ∧ later.executor = c.executor := by
  cases h with
  | act service hg hserves hr => exact ⟨hr, ⟨_, hg, rfl⟩, service, rfl, rfl, rfl⟩

theorem Step.silent_or_single {ledger : Ledger σ} {c later : Course σ} {acts : List Act}
    (h : Step ledger c acts later) : acts = [] ∨ ∃ a, acts = [a] := by
  cases h with
  | act service hg hserves hr => exact .inr ⟨_, rfl⟩
  | submit hmay => exact .inl rfl
  | work ha he => exact .inl rfl
  | send hg hcall hr => exact .inl rfl
  | record hr => exact .inl rfl
  | wait clock => exact .inl rfl

/-- What acts in a step is a group of the run that is on a worker. -/
theorem Step.of_mem {ledger : Ledger σ} {c later : Course σ} {acts : List Act}
    (h : Step ledger c acts later) {a : Act} (ha : a ∈ acts) :
    c.isRunning a.group = true ∧ a.group < c.groups.length := by
  rcases h.silent_or_single with rfl | ⟨b, rfl⟩
  · cases ha
  · rw [List.mem_singleton.mp ha]
    obtain ⟨hr, ⟨g, hg, -⟩, -⟩ := h.of_singleton
    exact ⟨hr, (List.getElem?_eq_some_iff.mp hg).1⟩

/-! ## Chains of steps -/

/-- A chain of steps, with the exchanges it makes. -/
inductive Runs (ledger : Ledger σ) : Course σ → List Act → Course σ → Prop where
  | start (c : Course σ) : Runs ledger c [] c
  | step {c mid later : Course σ} {acts rest : List Act} (head : Step ledger c acts mid)
      (tail : Runs ledger mid rest later) : Runs ledger c (acts ++ rest) later

/-- A schedule is a chain of steps that makes its history. -/
theorem runs_of_run {ledger : Ledger σ} {c later : Course σ} {labels : List RunLabel}
    (h : c.run ledger labels = some later) : Runs ledger c (c.history ledger labels) later := by
  induction labels generalizing c with
  | nil =>
    obtain rfl := Option.some.inj h
    exact .start c
  | cons label rest ih =>
    unfold run at h
    rw [List.foldlM_cons] at h
    obtain ⟨mid, hstep, hrest⟩ := Option.bind_eq_some_iff.mp h
    rw [history, hstep]
    exact .step (step_cases hstep) (ih hrest)

namespace Runs

variable {ledger : Ledger σ} {c later : Course σ} {acts : List Act}

/-- What every step preserves holds at the end of a chain. -/
theorem preserves {P : Course σ → Prop}
    (hstep : ∀ {c acts later}, Step ledger c acts later → P c → P later)
    (h : Runs ledger c acts later) (hc : P c) : P later := by
  induction h with
  | start c => exact hc
  | step head tail ih => exact ih (hstep head hc)

/-- A chain cut at one of its exchanges. -/
theorem split {before after : List Act} {a : Act} (h : Runs ledger c (before ++ a :: after) later) :
    ∃ here next, Runs ledger c before here ∧ Step ledger here [a] next ∧
      Runs ledger next after later := by
  generalize hacts : before ++ a :: after = acts at h
  induction h generalizing before with
  | start c => cases before <;> cases hacts
  | @step c mid later made rest head tail ih =>
    have skip : ∀ {before}, rest = before ++ a :: after →
        ∃ here next, Runs ledger c (made ++ before) here ∧ Step ledger here [a] next ∧
            Runs ledger next after later := by
      intro before hrest
      obtain ⟨here, next, hbefore, ha, hafter⟩ := ih hrest.symm
      exact ⟨here, next, .step head hbefore, ha, hafter⟩
    rcases head.silent_or_single with rfl | ⟨b, rfl⟩
    · exact skip hacts.symm
    -- The one exchange of the step is `a`, or it comes before it.
    · cases before with
      | nil =>
        obtain ⟨rfl, rfl⟩ := List.cons.inj hacts
        exact ⟨c, mid, .start c, head, tail⟩
      | cons first before =>
        obtain ⟨rfl, hrest⟩ := List.cons.inj hacts
        exact skip hrest.symm

end Runs

/-! ## How far a group has come -/

theorem Act.ofGroup_singleton_self (group : Nat) (x : Exchange) :
    Act.ofGroup group [⟨group, x⟩] = [x] := by
  simp [Act.ofGroup]

theorem Act.ofGroup_singleton_ne {group other : Nat} (h : other ≠ group) (x : Exchange) :
    Act.ofGroup group [⟨other, x⟩] = [] := by
  simp [Act.ofGroup, h]

/-- A group comes along its program by the exchanges that are its own. -/
theorem Step.after {ledger : Ledger σ} {c later : Course σ} {acts : List Act}
    (h : Step ledger c acts later) {group : Nat} {g : GroupCourse σ}
    (hg : c.groups[group]? = some g) :
    ∃ g', later.groups[group]? = some g' ∧ After g.todo (Act.ofGroup group acts) g'.todo := by
  have stays : ∃ g', c.groups[group]? = some g' ∧ After g.todo (Act.ofGroup group []) g'.todo :=
    ⟨g, hg, .start _⟩
  obtain ⟨hlt, -⟩ := List.getElem?_eq_some_iff.mp hg
  cases h with
  | submit hmay =>
    rw [submitNext_groups]
    exact stays
  | work ha he => exact stays
  | record hr => exact stays
  | wait clock => exact stays
  | @send other effect next wakeAt mode request ho hcall hrun =>
    by_cases hsame : other = group
    · subst hsame
      obtain rfl := Option.some.inj (ho.symm.trans hg)
      exact ⟨_, List.getElem?_set_self hlt, .start _⟩
    · exact ⟨g, (List.getElem?_set_ne hsame).trans hg, .start _⟩
  | @act other effect next wakeAt service? service ho hserves hrun =>
    -- The group that acts is this one, or another one and this one stays where it is.
    by_cases hsame : other = group
    · subst hsame
      obtain rfl := Option.some.inj (ho.symm.trans hg)
      refine ⟨_, List.getElem?_set_self hlt, ?_⟩
      rw [Act.ofGroup_singleton_self]
      exact .act (.start _)
    · refine ⟨g, (List.getElem?_set_ne hsame).trans hg, ?_⟩
      rw [Act.ofGroup_singleton_ne hsame]
      exact .start _

theorem Step.groups_length {ledger : Ledger σ} {c later : Course σ} {acts : List Act}
    (h : Step ledger c acts later) : later.groups.length = c.groups.length := by
  cases h with
  | submit hmay => rw [submitNext_groups]
  | work ha he => rfl
  | send hg hcall hr => exact c.send_groups_length _ _ _
  | act service hg hserves hr => exact c.goOn_groups_length _ _ _
  | record hr => rfl
  | wait clock => rfl

theorem Runs.after {ledger : Ledger σ} {c later : Course σ} {acts : List Act}
    (h : Runs ledger c acts later) {group : Nat} {g : GroupCourse σ}
    (hg : c.groups[group]? = some g) :
    ∃ g', later.groups[group]? = some g' ∧ After g.todo (Act.ofGroup group acts) g'.todo := by
  induction h generalizing g with
  | start c => exact ⟨g, hg, .start _⟩
  | step head tail ih =>
    obtain ⟨mid, hmid, hfirst⟩ := head.after hg
    obtain ⟨g', hg', hrest⟩ := ih hmid
    refine ⟨g', hg', ?_⟩
    rw [Act.ofGroup_append]
    exact hfirst.append hrest

theorem Runs.groups_length {ledger : Ledger σ} {c later : Course σ} {acts : List Act}
    (h : Runs ledger c acts later) : later.groups.length = c.groups.length :=
  h.preserves (P := fun d => d.groups.length = c.groups.length)
    (fun head hc => head.groups_length.trans hc) rfl

theorem Runs.group_lt {ledger : Ledger σ} {c later : Course σ} {acts : List Act}
    (h : Runs ledger c acts later) :
    ∀ a ∈ acts, a.group < c.groups.length := by
  induction h with
  | start c => exact List.forall_mem_nil _
  | step head tail ih =>
    intro a ha
    rcases List.mem_append.mp ha with ha | ha
    · exact (head.of_mem ha).2
    · rw [← head.groups_length]
      exact ih a ha

/-! ## What has been recorded -/

theorem Step.recorded {ledger : Ledger σ} {c later : Course σ} {acts : List Act}
    (h : Step ledger c acts later) :
    ∃ taken, taken ++ later.world.events = c.world.events ++ Act.events acts ∧
      later.statistics = c.statistics.recordAll taken := by
  cases h with
  | submit hmay =>
    rw [submitNext_world, submitNext_statistics]
    exact ⟨[], (List.append_nil _).symm, rfl⟩
  | work ha he => exact ⟨[], (List.append_nil _).symm, rfl⟩
  | send hg hcall hr => exact ⟨[], (List.append_nil _).symm, rfl⟩
  | act service hg hserves hr => exact ⟨[], c.world.events_answer service _, rfl⟩
  | @record event reported hr =>
    -- The channel holds the latest event first, so its last element is the oldest.
    refine ⟨[event], ?_, rfl⟩
    show event :: reported.reverse = c.world.reported.reverse ++ []
    rw [hr, List.reverse_append, List.append_nil]
    rfl
  | wait clock => exact ⟨[], (List.append_nil _).symm, rfl⟩

/-- What was reported was recorded, or is still to be recorded after it. -/
theorem Runs.recorded {ledger : Ledger σ} {c later : Course σ} {acts : List Act}
    (h : Runs ledger c acts later) :
    ∃ taken, taken ++ later.world.events = c.world.events ++ Act.events acts ∧
      later.statistics = c.statistics.recordAll taken := by
  induction h with
  | start c => exact ⟨[], (List.append_nil _).symm, rfl⟩
  | @step c mid later made rest head tail ih =>
    obtain ⟨first, hfirst, hstats⟩ := head.recorded
    obtain ⟨more, hmore, hlater⟩ := ih
    refine ⟨first ++ more, ?_, ?_⟩
    · calc first ++ more ++ later.world.events
          = first ++ (mid.world.events ++ Act.events rest) := by rw [List.append_assoc, hmore]
        _ = c.world.events ++ Act.events (made ++ rest) := by
            rw [← List.append_assoc, hfirst, Act.events_append, List.append_assoc]
    · rw [hlater, hstats]
      unfold RunStatistics.recordAll
      rw [List.foldl_append]

end Course

end LedgerBench
