import LedgerBench.Ledger.Simulated
import LedgerBench.Proofs.Ledger.Scripted
import LedgerBench.Proofs.Run.Accounting
import LedgerBench.Proofs.Task.Committed
import LedgerBench.Proofs.Text.Numeral
import Mathlib.Data.List.Nodup
/-!
Transactions of a run.

A ledger numbers what it commits, whoever submitted it. So all calls of a run draw on one counter,
again with each attempt, and what they got comes to the statistics in three lists. What is proved:
  1. `ScriptedLedger.numbers`, `SimulatedLedger.numbers`: both ledgers number what they commit.
  2. `Runs.commits`: at any time the transactions of a run have the numbers after the last one
     before it, in order and without a gap, and the ledger has counted them.
  3. `RunStatistics.transactionIds_recordAll`: the statistics name the transactions of the outcomes
     that they recorded, each of them once.
  4. `transactions_of_run`: so the transactions that the statistics name differ, and a complete run
     in which no call panicked names all that were committed.
-/

namespace LedgerBench

open Program

/-! ## Ledgers that number -/

/-- A service that numbers what it commits: an answered submission gets the next number, and
nothing else takes one. -/
structure Service.Numbers {σ : Type} (service : Service σ) (committed : σ → Nat)
    (name : Nat → String) : Prop where
  answered : ∀ request s response, (service.submit request s).reply = .answered response →
    response.transactionId = name (committed s + 1) ∧
      committed (service.submit request s).next = committed s + 1
  unanswered : ∀ request s, (∀ response, (service.submit request s).reply ≠ .answered response) →
    committed (service.submit request s).next = committed s
  queried : ∀ request s, committed (service.query request s).next = committed s

/-- A ledger that numbers what it commits when it serves a request, and not as it arrives. -/
structure Ledger.Numbers {σ : Type} (ledger : Ledger σ) (committed : σ → Nat)
    (name : Nat → String) : Prop where
  arrived : ∀ mode request s, committed (ledger.arrive mode request s).next = committed s
  served : ∀ mode request s, (ledger.arrive mode request s).service.Numbers committed name

namespace ScriptedLedger

def txName (number : Nat) : String := "tx-" ++ Text.natText number

theorem txName_injective : Function.Injective txName := by
  intro m n h
  exact Text.natText_injective ((String.append_right_inj _).mp h)

theorem numbers_service (answer : ScriptedAnswer) : (service answer).Numbers committed txName where
  answered := by
    intro request s response h
    cases answer with
    | code code =>
      obtain rfl := Reply.answered.inj h
      exact ⟨rfl, rfl⟩
    | transport e => cases h
    | query response => cases h
  unanswered := by
    intro request s h
    cases answer with
    | code code => exact absurd rfl (h _)
    | transport e => rfl
    | query response => rfl
  queried := by
    intro request s
    cases answer with
    | code code =>
      simp only [service, queried]
      split
      · rfl
      · rfl
    | transport e => rfl
    | query response => rfl

theorem numbers : ledger.Numbers committed txName where
  arrived _ request s := (s.take_frame request).2.2
  served _ request s := numbers_service (s.take request).1

end ScriptedLedger

namespace SimulatedLedger

def txName (number : Nat) : String := "sim-" ++ Text.zeroPadded 8 number

theorem txName_injective : Function.Injective txName := by
  intro m n h
  exact Text.zeroPadded_injective 8 ((String.append_right_inj _).mp h)

theorem numbers_service (p : SimulationProfile) (fate : SimulatedFate) :
    (service p fate).Numbers committed txName where
  answered := by
    intro request s response h
    cases fate with
    | lost => cases h
    | committed code =>
      obtain rfl := Reply.answered.inj h
      exact ⟨rfl, rfl⟩
  unanswered := by
    intro request s h
    cases fate with
    | lost => rfl
    | committed code => exact absurd rfl (h _)
  queried := by
    intro request s
    cases fate with
    | lost => rfl
    | committed code => rfl

theorem committed_draw (p : SimulationProfile) (s : SimulatedLedger) :
    (s.draw p).2.2.committed = s.committed := rfl

/-- Drawing takes no number, and what is drawn is served by numbering. -/
theorem numbers (p : SimulationProfile) : (ledger p).Numbers committed txName where
  arrived mode request s := by
    rw [arrive_ledger]
    exact s.committed_draw p
  served mode request s := by
    rw [arrive_ledger]
    exact numbers_service p (s.draw p).2.1

end SimulatedLedger

/-! ## Transactions at any time -/

/-- Some transactions have the numbers after one count and up to another, in order. -/
structure Consecutive (name : Nat → String) (last : Nat) (ids : List String)
    (now : Nat) : Prop where
  names : ids = (List.range' (last + 1) ids.length).map name
  count : now = last + ids.length

namespace Consecutive

variable {name : Nat → String} {last mid now : Nat} {xs ys : List String}

theorem none : Consecutive name last [] last := ⟨rfl, rfl⟩

theorem append (h : Consecutive name last xs mid) (k : Consecutive name mid ys now) :
    Consecutive name last (xs ++ ys) now where
  names := by
    have hstart : mid + 1 = last + 1 + 1 * xs.length := by
      have hcount := h.count
      omega
    have hys := k.names
    rw [hstart] at hys
    calc xs ++ ys
        = (List.range' (last + 1) xs.length
            ++ List.range' (last + 1 + 1 * xs.length) ys.length).map name := by
          rw [List.map_append, ← h.names, ← hys]
      _ = (List.range' (last + 1) (xs ++ ys).length).map name := by
          rw [List.range'_append, List.length_append]
  count := by
    have hxs := h.count
    have hys := k.count
    rw [List.length_append]
    omega

theorem nodup (h : Consecutive name last xs now) (hname : Function.Injective name) : xs.Nodup := by
  rw [h.names]
  exact List.Nodup.map hname (List.nodup_range' 1)

end Consecutive

/-- The transactions that some groups committed, in order. -/
def Act.commits (acts : List Act) : List String := Program.commits (acts.map Act.exchange)

namespace Act

theorem commits_append (xs ys : List Act) : commits (xs ++ ys) = commits xs ++ commits ys := by
  simp only [commits, List.map_append, Program.commits_append]

/-- What some groups committed, sorted by group. -/
theorem commits_perm {n : Nat} {acts : List Act} (h : ∀ a ∈ acts, a.group < n) :
    (commits acts).Perm ((List.range n).flatMap fun g => Program.commits (ofGroup g acts)) := by
  have hp := ((perm_groups h).map Act.exchange).filterMap Exchange.commit?
  rw [List.map_flatMap, List.filterMap_flatMap] at hp
  exact hp

end Act

section Counting

variable {σ : Type} {ledger : Ledger σ} {committed : σ → Nat} {name : Nat → String}

/-- An effect commits the next transaction, or none. -/
theorem World.commits_answer {service : Service σ} (h : service.Numbers committed name)
    (w : World σ) (effect : Effect) :
    Consecutive name (committed w.ledger)
      (Program.commits [⟨effect, (w.answer service effect).answer⟩])
      (committed (w.answer service effect).world.ledger) := by
  cases effect with
  | submit request =>
    show Consecutive name (committed w.ledger)
      (Program.commits [⟨.submit request, (service.submit request w.ledger).reply⟩])
      (committed (service.submit request w.ledger).next)
    have hnone : (∀ response, (service.submit request w.ledger).reply ≠ .answered response) →
        committed (service.submit request w.ledger).next = committed w.ledger :=
      h.unanswered request w.ledger
    cases hreply : (service.submit request w.ledger).reply with
    | answered response =>
      obtain ⟨hid, hcount⟩ := h.answered request w.ledger response hreply
      exact ⟨congrArg (fun id => [id]) hid, hcount⟩
    | failed e =>
      rw [hnone (by simp [hreply])]
      exact .none
    | panicked reason =>
      rw [hnone (by simp [hreply])]
      exact .none
  | query request =>
    show Consecutive name (committed w.ledger) [] (committed (service.query request w.ledger).next)
    rw [h.queried]
    exact .none
  | now => exact .none
  | resolve form body => exact .none
  | sleep delay => exact .none
  | emit event => exact .none

/-- What is no request commits nothing, by whatever service. -/
theorem World.commits_uncalled {effect : Effect} (h : effect.call? = none) (service : Service σ)
    (w : World σ) :
    Consecutive name (committed w.ledger)
      (Program.commits [⟨effect, (w.answer service effect).answer⟩])
      (committed (w.answer service effect).world.ledger) := by
  cases effect <;> first | exact .none | cases h

namespace Course

variable {c later : Course σ} {acts : List Act}

/-- All requests that are under way will be served by something that numbers what it commits. -/
def Numbering (committed : σ → Nat) (name : Nat → String) (c : Course σ) : Prop :=
  ∀ g ∈ c.groups, ∀ service, g.service = some service → service.Numbers committed name

theorem Numbering.set (h : c.Numbering committed name) {g : GroupCourse σ}
    (hg : ∀ service, g.service = some service → service.Numbers committed name) (group : Nat) :
    ∀ g' ∈ c.groups.set group g, ∀ service, g'.service = some service →
      service.Numbers committed name := by
  intro g' hg'
  rcases List.mem_or_eq_of_mem_set hg' with hold | rfl
  · exact h g' hold
  · exact hg

/-- A step commits the next transaction, or none; a request that arrives commits none yet. -/
theorem Step.commits (hledger : ledger.Numbers committed name) (h : Step ledger c acts later)
    (hc : c.Numbering committed name) :
    later.Numbering committed name ∧
      Consecutive name (committed c.world.ledger) (Act.commits acts)
        (committed later.world.ledger) := by
  cases h with
  | submit hmay =>
    refine ⟨?_, ?_⟩
    · unfold Numbering
      rw [submitNext_groups]
      exact hc
    · rw [submitNext_world]
      exact .none
  | work ha he => exact ⟨hc, .none⟩
  | @send group effect next wakeAt mode request hg hcall hr =>
    refine ⟨hc.set (fun service hservice => ?_) group, ?_⟩
    · obtain rfl := Option.some.inj hservice
      exact hledger.served mode request c.world.ledger
    · show Consecutive name _ [] (committed (ledger.arrive mode request c.world.ledger).next)
      rw [hledger.arrived]
      exact .none
  | @act group effect next wakeAt service? service hg hserves hr =>
    refine ⟨hc.set (fun _ hnone => by cases hnone) group, ?_⟩
    rcases hserves with hservice | huncalled
    · exact c.world.commits_answer (hc _ (List.mem_of_getElem? hg) service hservice) effect
    · exact c.world.commits_uncalled huncalled service
  | record hr => exact ⟨hc, .none⟩
  | wait clock => exact ⟨hc, .none⟩

/-- Whatever came in between, the transactions of a run are consecutive. -/
theorem Runs.commits (hledger : ledger.Numbers committed name) (h : Runs ledger c acts later)
    (hc : c.Numbering committed name) :
    Consecutive name (committed c.world.ledger) (Act.commits acts)
      (committed later.world.ledger) := by
  induction h with
  | start c => exact .none
  | step head tail ih =>
    obtain ⟨hmid, hhead⟩ := head.commits hledger hc
    rw [Act.commits_append]
    exact hhead.append (ih hmid)

end Course

end Counting

/-! ## Transactions in the statistics -/

namespace RunStatistics

/-- The transactions that the responses, the failures and the retried errors name. -/
def transactionIds (s : RunStatistics) : List String :=
  s.responses.filterMap CallResponse.transactionId
    ++ s.failures.filterMap (fun f => f.error.transactionId)
    ++ s.transientErrors.filterMap fun f => f.error.transactionId

theorem transactionIds_retriedErrors (o : Outcome) :
    (retriedErrors o).filterMap (fun f => f.error.transactionId) =
      o.retried.filterMap CallError.transactionId := by
  calc (retriedErrors o).filterMap (fun f => f.error.transactionId)
      = ((retriedErrors o).map FailedInvocation.error).filterMap CallError.transactionId := by
        rw [List.filterMap_map]
        rfl
    _ = o.retried.filterMap CallError.transactionId := by rw [map_error_retriedErrors]

/-- An outcome is recorded in two lists: its retried errors in one, and its end in one of the other
two. -/
theorem transactionIds_recordOutcome (s : RunStatistics) (o : Outcome) :
    (s.recordOutcome o).transactionIds.Perm (s.transactionIds ++ o.transactionIds) := by
  have hretried := transactionIds_retriedErrors o
  simp only [List.filterMap_eq_flatMap_toList] at hretried
  rw [List.perm_iff_count]
  intro id
  unfold recordOutcome transactionIds Outcome.transactionIds Outcome.ending?
  cases o.error with
  | none =>
    simp [hretried, List.filterMap_eq_flatMap_toList, CallResponse.ofOutcome]
    omega
  | some e =>
    simp [hretried, List.filterMap_eq_flatMap_toList]
    omega

theorem transactionIds_recordAll (s : RunStatistics) (events : List Event) :
    (s.recordAll events).transactionIds.Perm
      (s.transactionIds ++ (outcomes events).flatMap Outcome.transactionIds) := by
  induction events generalizing s with
  | nil => simp [recordAll, outcomes]
  | cons event rest ih =>
    refine (ih (s.record event)).trans ?_
    cases event with
    | completed o =>
      have hcons : outcomes (.completed o :: rest) = o :: outcomes rest := rfl
      rw [hcons, List.flatMap_cons, ← List.append_assoc]
      exact (s.transactionIds_recordOutcome o).append_right _
    | started task function => exact .refl _
    | groupCompleted group members attempts error => exact .refl _

end RunStatistics

/-! ## Runs in submit mode -/

namespace Bench

/-- The transactions of a run. The committed ones have the numbers from one up to a count, one each.
The statistics, at any time and in the end, name some of them and none twice; they name all of them
once every group has ended, unless a call panicked. -/
structure Transacts {σ : Type} (name : Nat → String) (count : Nat) (start later : Course σ)
    (acts : List Act) : Prop where
  numbered : Act.commits acts = (List.range' 1 count).map name
  nodup : later.statistics.transactionIds.Nodup
  subset : later.statistics.transactionIds ⊆ Act.commits acts
  perm : start.groups.length ≤ later.statistics.groupsCompleted →
    (∀ o ∈ outcomes (Act.events acts), ∀ reason, o.error ≠ some (CallError.panicked reason)) →
    later.statistics.transactionIds.Perm (Act.commits acts)
  concluded : ∀ finishedAt stats, conclude later finishedAt = .ok stats →
    stats.transactionIds = later.statistics.transactionIds

section Submitting

variable {σ : Type} {committed : σ → Nat} {name : Nat → String} {b : Bench σ} {s : Session σ}
  {specs : List CallSpec} {startedAt : Timestamp} {start later : Course σ} {acts : List Act}
  {labels : List RunLabel}

/-- What the outcomes reported so far name was committed, each transaction by an attempt of its
own. -/
theorem Begun.transactionIds_subperm (hb : b.Begun s specs .submit startedAt start)
    (h : Course.Runs b.ledger start acts later) :
    ((outcomes (Act.events acts)).flatMap Outcome.transactionIds).Subperm (Act.commits acts) := by
  have hlt : ∀ a ∈ acts, a.group < b.config.iterations := hb.length_groups ▸ h.group_lt
  have hgroups : ((List.range b.config.iterations).flatMap fun g =>
        (outcomes (Program.events (Act.ofGroup g acts))).flatMap Outcome.transactionIds).Sublist
      ((List.range b.config.iterations).flatMap fun g => Program.commits (Act.ofGroup g acts)) := by
    apply List.Sublist.flatMap_right
    intro g hg
    obtain ⟨id, is, rest, -, hxs, -⟩ := hb.group_after h (List.mem_range.mp hg)
    exact Task.transactionIds_sublist rfl hxs
  have hnamed := (Act.outcomes_perm hlt).flatMap_right Outcome.transactionIds
  rw [List.flatMap_assoc] at hnamed
  exact (hnamed.subperm_right.mpr hgroups.subperm).trans (Act.commits_perm hlt).symm.subperm

/-- Nothing is recorded before the run, so its statistics name what its recorded outcomes do. -/
theorem Begun.transactionIds_recordAll (hb : b.Begun s specs .submit startedAt start)
    (events : List Event) :
    (start.statistics.recordAll events).transactionIds.Perm
      ((outcomes events).flatMap Outcome.transactionIds) := by
  have hperm := start.statistics.transactionIds_recordAll events
  rw [hb.statistics] at hperm ⊢
  exact hperm

/-- Where no call panicked, the outcomes of a complete run name all that its calls committed. -/
theorem Complete.transactionIds_perm (h : b.Complete s specs .submit start acts later)
    (hno : ∀ o ∈ outcomes (Act.events acts), ∀ reason, o.error ≠ some (CallError.panicked reason)) :
    ((outcomes (Act.events acts)).flatMap Outcome.transactionIds).Perm (Act.commits acts) := by
  obtain ⟨is, his, hout, -⟩ := h.outcomes_perm
  have hnamed := hout.flatMap_right Outcome.transactionIds
  rw [List.flatMap_assoc] at hnamed
  refine hnamed.trans (List.Perm.trans (List.Perm.of_eq ?_) (Act.commits_perm h.numbered).symm)
  refine List.flatMap_congr fun g hg => ?_
  obtain ⟨id, hxs⟩ := (his g (List.mem_range.mp hg)).exchanges
  rw [hxs, Task.commits_group, List.flatMap_map]
  refine List.flatMap_congr fun i hi => i.transactionIds_eq rfl ?_
  intro hpanicked
  obtain ⟨reason, hr⟩ := hpanicked
  exact hno i.outcome (hout.mem_iff.mpr (List.mem_flatMap.mpr ⟨g, hg, List.mem_map_of_mem hi⟩))
    reason (i.error_of_panicked hr)

/-- A run over a ledger that numbers what it commits and has committed nothing yet. -/
theorem transacts_of_numbers (hledger : b.ledger.Numbers committed name)
    (hname : Function.Injective name) (hfresh : committed s.ledger = 0)
    (hb : b.begin s specs .submit startedAt = .ok start)
    (hr : start.run b.ledger labels = some later) :
    Transacts name (committed later.world.ledger) start later (start.history b.ledger labels) := by
  obtain ⟨hbegun, hruns⟩ := runs_of_begin hb hr
  generalize start.history b.ledger labels = acts at hruns ⊢
  have hnothing : start.Numbering committed name := by
    intro g hg service hservice
    rw [hbegun.groups] at hg
    obtain ⟨t, -, rfl⟩ := List.mem_map.mp hg
    cases hservice
  have hcommits := hruns.commits hledger hnothing
  have hstart : committed start.world.ledger = 0 := by
    rw [hbegun.world]
    exact hfresh
  rw [hstart] at hcommits
  obtain ⟨taken, htaken, hstatistics⟩ := hruns.recorded
  have hempty : start.world.events = [] := by
    rw [hbegun.world]
    rfl
  rw [hempty, List.nil_append] at htaken
  -- What was recorded is some of what was reported, and that names no more than was committed.
  have hnamed := hbegun.transactionIds_recordAll taken
  have hsub : later.statistics.transactionIds.Subperm (Act.commits acts) := by
    rw [hstatistics]
    refine hnamed.subperm.trans (List.Subperm.trans ?_ (hbegun.transactionIds_subperm hruns))
    apply List.Sublist.subperm
    apply List.Sublist.flatMap
    rw [← htaken, outcomes_append]
    exact List.sublist_append_left _ _
  refine ⟨?_, ?_, hsub.subset, ?_, ?_⟩
  · rw [hcommits.count, Nat.zero_add]
    exact hcommits.names
  · obtain ⟨ids, hperm, hids⟩ := hsub
    exact hperm.nodup_iff.mp ((hcommits.nodup hname).sublist hids)
  · intro hends hno
    have hcomplete := hbegun.complete hruns hends
    rw [hcomplete.statistics]
    exact (hbegun.transactionIds_recordAll _).trans (hcomplete.transactionIds_perm hno)
  · intro finishedAt stats hstats
    unfold conclude at hstats
    split at hstats
    · cases hstats
    · obtain rfl := Except.ok.inj hstats
      rfl

end Submitting

/-- The transactions of a run in submit mode over a ledger that was not used before, scripted or
simulated. In every schedule and at any time the committed attempts have the numbers from one on,
one each and none skipped, and the responses, failures and retried errors of the statistics name no
transaction twice. -/
theorem transactions_of_run :
    (∀ {b : Bench ScriptedLedger} {s : Session ScriptedLedger} {specs : List CallSpec}
        {startedAt : Timestamp} {start later : Course ScriptedLedger}
        {labels : List RunLabel}, b.ledger = ScriptedLedger.ledger → s.ledger.committed = 0 →
          b.begin s specs .submit startedAt = .ok start →
      start.run b.ledger labels = some later →
      Transacts ScriptedLedger.txName later.world.ledger.committed start later
        (start.history b.ledger labels)) ∧
    (∀ {p : SimulationProfile} {b : Bench SimulatedLedger} {s : Session SimulatedLedger}
        {specs : List CallSpec} {startedAt : Timestamp}
        {start later : Course SimulatedLedger} {labels : List RunLabel},
          b.ledger = SimulatedLedger.ledger p → s.ledger.committed = 0 →
      b.begin s specs .submit startedAt = .ok start → start.run b.ledger labels = some later →
      Transacts SimulatedLedger.txName later.world.ledger.committed start later
        (start.history b.ledger labels)) := by
  constructor
  · intro b s specs startedAt start later labels hledger hfresh hb hr
    exact transacts_of_numbers (hledger ▸ ScriptedLedger.numbers)
      ScriptedLedger.txName_injective hfresh hb hr
  · intro p b s specs startedAt start later labels hledger hfresh hb hr
    exact transacts_of_numbers (hledger ▸ SimulatedLedger.numbers p)
      SimulatedLedger.txName_injective hfresh hb hr

/-! ### Two calls in turns -/

/-- Two iterations side by side. -/
def twice {σ : Type} (ledger : Ledger σ) : Bench σ where
  config := { concurrency := 2, iterations := 2 }
  policy := {}
  ledger := ledger
  handlers := []

def unused {σ : Type} (state : σ) : Session σ where
  ledger := state
  draws := fresh.draws
  files := fresh.files
  ids := fresh.ids

/-- A conflict for the first call and no response for the second, and then a commit for the first
and a refusal for the second. -/
def contested : ScriptedLedger where
  scripts := [("put", [.code .mvccReadConflict, .transport (.noResponse "timeout"),
    .code .valid, .code .endorsementPolicyFailure])]

/-- Every fate is as likely as the others, and no call takes longer than a millisecond. -/
def brisk : SimulationProfile where
  latencyFrom := 0
  latencyTo := 2
  transientRate := .ofRatio false 1 4
  persistentRate := .ofRatio false 1 4
  transportRate := .ofRatio false 1 4

/-- Rolls in the middle of quarters, to the same effect. Only the third call, which is to commit,
takes any time. -/
def contestedRolls : SimulatedLedger where
  draws := { stream := fun n =>
    ([1, 0, 3].getD (n / 2) 2 * 2 + 1) * 2 ^ 50 + if n = 4 then 1 else 0 }

/-- A schedule in which both calls wait before their second attempts. That of the first call
arrives before the other one, and is answered after it and after a pause. -/
def inTurns (pause : List RunLabel) : List RunLabel :=
  [.submit, .submit, .work 0 .check, .work 0 .lock, .work 0 .receive,
    .work 1 .check, .work 1 .lock, .work 1 .receive]
    ++ (List.replicate 5 [RunLabel.act 0, .act 1]).flatten ++ [.wait, .act 0, .act 1]
    ++ List.replicate 4 (.act 1) ++ pause ++ List.replicate 4 (.act 0) ++ List.replicate 6 .record

theorem transactions_of_run_inTurns :
    (∃ start, (twice ScriptedLedger.ledger).begin (unused contested) [{ function := "put" }] .submit
      ⟨0⟩ = .ok start ∧
      ∃ later, start.run ScriptedLedger.ledger (inTurns []) = some later ∧
        later.statistics.transactionIds = ["tx-3", "tx-2", "tx-1"] ∧
        Transacts ScriptedLedger.txName 3 start later
          (start.history ScriptedLedger.ledger (inTurns []))) ∧
    ∃ start, (twice (SimulatedLedger.ledger brisk)).begin (unused contestedRolls)
      [{ function := "put" }] .submit ⟨0⟩ = .ok start ∧
      ∃ later, start.run (SimulatedLedger.ledger brisk) (inTurns [.wait]) = some later ∧
        later.statistics.transactionIds = ["sim-00000003", "sim-00000002", "sim-00000001"] ∧
        Transacts SimulatedLedger.txName 3 start later
          (start.history (SimulatedLedger.ledger brisk) (inTurns [.wait])) := by
  constructor
  · have hrun : ∃ start, (twice ScriptedLedger.ledger).begin (unused contested)
        [{ function := "put" }] .submit ⟨0⟩ = .ok start ∧
        ∃ later, start.run ScriptedLedger.ledger (inTurns []) = some later ∧
          later.statistics.transactionIds = ["tx-3", "tx-2", "tx-1"] ∧
            later.world.ledger.committed = 3 := by
      refine ⟨_, rfl, ?_⟩
      apply exists_of_any
      decide +kernel
    obtain ⟨start, hb, later, hr, hids, hcount⟩ := hrun
    have h := transactions_of_run.1 rfl rfl hb hr
    rw [hcount] at h
    exact ⟨start, hb, later, hr, hids, h⟩
  · have hrun : ∃ start, (twice (SimulatedLedger.ledger brisk)).begin (unused contestedRolls)
        [{ function := "put" }] .submit ⟨0⟩ = .ok start ∧
        ∃ later, start.run (SimulatedLedger.ledger brisk) (inTurns [.wait]) = some later ∧
          later.statistics.transactionIds = ["sim-00000003", "sim-00000002", "sim-00000001"] ∧
            later.world.ledger.committed = 3 := by
      refine ⟨_, rfl, ?_⟩
      apply exists_of_any
      decide +kernel
    obtain ⟨start, hb, later, hr, hids, hcount⟩ := hrun
    have hledger :
        (twice (SimulatedLedger.ledger brisk)).ledger = SimulatedLedger.ledger brisk := rfl
    have h := transactions_of_run.2 hledger rfl hb hr
    rw [hcount] at h
    exact ⟨start, hb, later, hr, hids, h⟩

end Bench

end LedgerBench
