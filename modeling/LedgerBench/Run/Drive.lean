import LedgerBench.Run.Course
/-!
Driving a run to its end.

Every step of a run leaves less to do (`remaining_of_step`): a program comes to what follows its
first effect, a group is submitted, a worker comes nearer to its next job, an event is taken, or the
clock passes a time at which something was due. So every schedule is finite, and `Course.drive`,
which follows one of them, is total. Its schedule prefers, in this order, recording events,
submitting groups, moving workers, letting groups act, and waiting.
-/

namespace LedgerBench

/-! ## What is left of some programs -/

namespace Program

/-- One program is what another comes to when its first effect is answered. -/
inductive Follows {α : Type} : Program α → Program α → Prop where
  | answered (effect : Effect) (next : effect.Answer → Program α) (answer : effect.Answer) :
      Follows (next answer) (act effect next)

theorem acc_follows {α : Type} (p : Program α) : Acc Follows p := by
  induction p with
  | done a => exact ⟨_, fun q h => nomatch h⟩
  | act effect next ih =>
    refine ⟨_, fun q h => ?_⟩
    cases h
    exact ih _

/-- Some programs after one of them had its first effect answered. -/
inductive OneFollows {α : Type} : List (Program α) → List (Program α) → Prop where
  | head {q p : Program α} {rest : List (Program α)} (h : Follows q p) :
      OneFollows (q :: rest) (p :: rest)
  | tail {p : Program α} {later rest : List (Program α)} (h : OneFollows later rest) :
      OneFollows (p :: later) (p :: rest)

theorem acc_cons {α : Type} {p : Program α} {rest : List (Program α)} (hp : Acc Follows p)
    (hr : Acc OneFollows rest) : Acc OneFollows (p :: rest) := by
  induction hp generalizing rest with
  | intro p _ ihp =>
    induction hr with
    | intro rest hrest ihr =>
      refine ⟨_, fun l h => ?_⟩
      cases h with
      | head h => exact ihp _ h ⟨_, hrest⟩
      | tail h => exact ihr _ h

theorem acc_oneFollows {α : Type} (ps : List (Program α)) : Acc OneFollows ps := by
  induction ps with
  | nil => exact ⟨_, fun l h => nomatch h⟩
  | cons p rest ih => exact acc_cons (acc_follows p) ih

theorem oneFollows_set {α : Type} {ps : List (Program α)} {i : Nat} {effect : Effect}
    {next : effect.Answer → Program α} (answer : effect.Answer)
    (h : ps[i]? = some (act effect next)) :
    OneFollows (ps.set i (next answer)) ps := by
  induction ps generalizing i with
  | nil => simp at h
  | cons p rest ih =>
    cases i with
    | zero =>
      simp only [List.getElem?_cons_zero, Option.some.injEq] at h
      subst h
      exact .head (.answered effect next answer)
    | succ i =>
      simp only [List.getElem?_cons_succ] at h
      exact .tail (ih h)

end Program

/-! ## What is left of the workers' steps -/

/-- How far a worker is from its next job, in steps. -/
def Worker.distance {J : Type} : Worker J → Nat
  | .left => 0
  | .selecting => 1
  | .waiting => 2
  | .checking => 3
  | .running _ => 4
  | .abandoning _ _ => 4

/-- The steps that the workers of a pool can still make with the jobs now queued. -/
def Pool.load {J : Type} (p : Pool J) : Nat :=
  4 * p.queue.length + (p.workers.map Worker.distance).sum

def Executor.load {J : Type} (e : Executor J) : Nat := (e.pools.map Pool.load).sum

theorem sum_map_set {α : Type} {f : α → Nat} {l : List α} {i : Nat} {a : α} (b : α)
    (h : l[i]? = some a) :
    ((l.set i b).map f).sum + f a = (l.map f).sum + f b := by
  induction l generalizing i with
  | nil => simp at h
  | cons x rest ih =>
    cases i with
    | zero =>
      simp only [List.getElem?_cons_zero, Option.some.injEq] at h
      subst h
      simp only [List.set_cons_zero, List.map_cons, List.sum_cons]
      omega
    | succ i =>
      simp only [List.getElem?_cons_succ] at h
      have := ih h
      simp only [List.set_cons_succ, List.map_cons, List.sum_cons]
      omega

/-- The steps of a worker that bring it nearer to its next job. -/
def WorkerMove.isProgress : WorkerMove → Bool
  | .check | .lock | .receive | .finish => true
  | _ => false

theorem load_of_moveWorker {J : Type} {p later : Pool J} {i : Nat} {move : WorkerMove}
    {records : List (JobRecord J)} (hm : move.isProgress = true)
    (h : p.moveWorker? i move = some (later, records)) : later.load < p.load := by
  cases hw : p.workers[i]? with
  | none => simp [Pool.moveWorker?, hw] at h
  | some w =>
    have sum := fun b => sum_map_set (f := Worker.distance) b hw
    cases w <;> cases move <;> simp only [WorkerMove.isProgress, Bool.false_eq_true] at hm <;>
      simp only [Pool.moveWorker?, hw, reduceCtorEq] at h
    case checking.check =>
      simp only [Option.some.injEq, Prod.mk.injEq] at h
      rw [← h.1]
      simp only [Pool.load]
      split
      · have := sum .left; simp only [Worker.distance] at this; omega
      · have := sum .waiting; simp only [Worker.distance] at this; omega
    case waiting.lock =>
      split at h
      · simp at h
      · simp only [Option.some.injEq, Prod.mk.injEq] at h
        rw [← h.1]
        have := sum .selecting
        simp only [Worker.distance] at this
        simp only [Pool.load]
        omega
    case selecting.receive =>
      split at h
      · rename_i job queue hq
        simp only [Option.some.injEq, Prod.mk.injEq] at h
        rw [← h.1]
        have := sum (.running job)
        simp only [Worker.distance] at this
        simp only [Pool.load, hq, List.length_cons]
        omega
      · simp at h
    case running.finish job =>
      simp only [Option.some.injEq, Prod.mk.injEq] at h
      rw [← h.1]
      have := sum .checking
      simp only [Worker.distance] at this
      simp only [Pool.load]
      omega

theorem load_of_step {J : Type} {e later : Executor J} {index worker : Nat} {move : WorkerMove}
    (hm : move.isProgress = true) (h : e.step (.work index worker move) = some later) :
    later.load < e.load := by
  cases hp : e.pools[index]? with
  | none => simp [Executor.step, hp] at h
  | some pool =>
    simp only [Executor.step, hp, Option.map_eq_some_iff] at h
    obtain ⟨⟨next, records⟩, hmove, rfl⟩ := h
    have hlt := load_of_moveWorker hm hmove
    have hsum := sum_map_set (f := Pool.load) next hp
    simp only [Executor.load]
    omega

/-! ## What is left of a run -/

/-- What is left of a run: programs, requests that may still be sent before one of these goes on,
submissions, steps of workers, events to take, and times to come. -/
structure Remaining where
  programs : List (Program Task)
  requests : Nat
  submissions : Nat
  load : Nat
  events : Nat
  waits : Nat

namespace Remaining

/-- The parts in the order in which they weigh. -/
def parts (r : Remaining) : List (Program Task) × Nat × Nat × Nat × Nat × Nat :=
  (r.programs, r.requests, r.submissions, r.load, r.events, r.waits)

instance : WellFoundedRelation Remaining :=
  invImage parts ⟨Prod.Lex Program.OneFollows
      (Prod.Lex (· < ·) (Prod.Lex (· < ·) (Prod.Lex (· < ·) (Prod.Lex (· < ·) (· < ·))))),
    (Prod.lex ⟨_, ⟨Program.acc_oneFollows⟩⟩ (Prod.lex Nat.lt_wfRel (Prod.lex Nat.lt_wfRel
      (Prod.lex Nat.lt_wfRel (Prod.lex Nat.lt_wfRel Nat.lt_wfRel))))).wf⟩

/-- One part of what is left shrank, and those that weigh more stayed. -/
inductive Less : Remaining → Remaining → Prop where
  | programs {a b : Remaining} (h : Program.OneFollows a.programs b.programs) : Less a b
  | requests {a b : Remaining} (hp : a.programs = b.programs) (h : a.requests < b.requests) :
      Less a b
  | submissions {a b : Remaining} (hp : a.programs = b.programs) (hr : a.requests = b.requests)
      (h : a.submissions < b.submissions) : Less a b
  | load {a b : Remaining} (hp : a.programs = b.programs) (hr : a.requests = b.requests)
      (hs : a.submissions = b.submissions) (h : a.load < b.load) : Less a b
  | events {a b : Remaining} (hp : a.programs = b.programs) (hr : a.requests = b.requests)
      (hs : a.submissions = b.submissions) (hl : a.load = b.load) (h : a.events < b.events) :
      Less a b
  | waits {a b : Remaining} (hp : a.programs = b.programs) (hr : a.requests = b.requests)
      (hs : a.submissions = b.submissions) (hl : a.load = b.load) (he : a.events = b.events)
      (h : a.waits < b.waits) : Less a b

theorem rel_of_less {a b : Remaining} (h : Less a b) : WellFoundedRelation.rel a b := by
  show Prod.Lex _ _ a.parts b.parts
  cases h with
  | programs h => exact .left _ _ h
  | requests hp h => simp only [parts, hp]; exact .right _ (.left _ _ h)
  | submissions hp hr h => simp only [parts, hp, hr]; exact .right _ (.right _ (.left _ _ h))
  | load hp hr hs h =>
    simp only [parts, hp, hr, hs]
    exact .right _ (.right _ (.right _ (.left _ _ h)))
  | events hp hr hs hl h =>
    simp only [parts, hp, hr, hs, hl]
    exact .right _ (.right _ (.right _ (.right _ (.left _ _ h))))
  | waits hp hr hs hl he h =>
    simp only [parts, hp, hr, hs, hl, he]
    exact .right _ (.right _ (.right _ (.right _ (.right _ h))))

end Remaining

namespace Course

def remaining {σ : Type} (c : Course σ) : Remaining where
  programs := c.groups.map GroupCourse.todo
  requests := c.groups.countP fun g => g.service.isNone
  submissions := if c.rejected.isSome then 0 else c.groups.length - c.submitted
  load := c.executor.load
  events := c.world.reported.length
  waits := c.futureTimes.length

theorem countP_lt_of_between {l : List Duration} {now later t : Duration} (hmem : t ∈ l)
    (hnow : now < t) (hlater : t ≤ later) :
    (l.filter fun x => later < x).length < (l.filter fun x => now < x).length := by
  have mono : ∀ m : List Duration,
      (m.filter fun x => later < x).length ≤ (m.filter fun x => now < x).length := by
    intro m
    induction m with
    | nil => simp
    | cons x rest ih =>
      by_cases hx : later < x
      · have hn : now < x := Nat.lt_of_lt_of_le hnow (Nat.le_of_lt (Nat.lt_of_le_of_lt hlater hx))
        simp [hx, hn, ih]
      · by_cases hn : now < x
        · simp only [List.filter_cons, hx, hn, decide_true, decide_false, if_true, List.length_cons,
            Bool.false_eq_true, if_false]
          omega
        · simpa [List.filter_cons, hx, hn] using ih
  induction l with
  | nil => simp at hmem
  | cons x rest ih =>
    by_cases hxt : x = t
    · subst hxt
      have hl : ¬ later < x := Nat.not_lt.mpr hlater
      have := mono rest
      simp only [List.filter_cons, hl, hnow, decide_true, decide_false, if_true, List.length_cons,
        Bool.false_eq_true, if_false]
      omega
    · have hrest : t ∈ rest := by
        cases hmem with
        | head => exact absurd rfl hxt
        | tail _ h => exact h
      have hi := ih hrest
      by_cases hx : later < x
      · have hn : now < x := Nat.lt_of_lt_of_le hnow (Nat.le_of_lt (Nat.lt_of_le_of_lt hlater hx))
        simpa [List.filter_cons, hx, hn] using hi
      · by_cases hn : now < x
        · simp only [List.filter_cons, hx, hn, decide_true, decide_false, if_true, List.length_cons,
            Bool.false_eq_true, if_false]
          omega
        · simpa [List.filter_cons, hx, hn] using hi

theorem foldl_min_mem (t : Duration) (l : List Duration) : l.foldl Duration.min t ∈ t :: l := by
  induction l generalizing t with
  | nil => simp
  | cons x rest ih =>
    have h := ih (Duration.min t x)
    simp only [List.foldl_cons]
    have hm : Duration.min t x = t ∨ Duration.min t x = x := by
      simp only [Duration.min]
      split
      · exact .inl rfl
      · exact .inr rfl
    rcases hm with hm | hm <;> rw [hm] at h ⊢ <;> simp only [List.mem_cons] at h ⊢ <;> grind

theorem less_of_submit {σ : Type} {c : Course σ} (h : c.maySubmit = true) :
    Remaining.Less c.submitNext.remaining c.remaining := by
  simp only [maySubmit, Bool.and_eq_true, Option.isNone_iff_eq_none, decide_eq_true_eq] at h
  obtain ⟨⟨hr, hs⟩, -⟩ := h
  cases he : c.executor.submit c.submitted with
  | ok executor =>
    refine .submissions (by simp [remaining, submitNext, he])
      (by simp [remaining, submitNext, he]) ?_
    simp only [remaining, submitNext, he, hr, Option.isSome_none, Bool.false_eq_true, if_false]
    omega
  | error cause =>
    refine .submissions (by simp [remaining, submitNext, he])
      (by simp [remaining, submitNext, he]) ?_
    simp only [remaining, submitNext, he, hr, Option.isSome_none, Option.isSome_some,
      Bool.false_eq_true, if_false, if_true]
    omega

/-- A request that is sent leaves all programs where they are, and its group has no other one to
send. -/
theorem less_of_send {σ : Type} {c : Course σ} {group : Nat} {todo : Program Task}
    {wakeAt : Duration} (a : Arrival σ)
    (hg : c.groups[group]? = some { todo, wakeAt, service := none }) :
    Remaining.Less (c.send group todo a).remaining c.remaining := by
  obtain ⟨hlt, hget⟩ := List.getElem?_eq_some_iff.mp hg
  have hpos : 0 < c.groups.countP fun g => g.service.isNone :=
    List.countP_pos_iff.mpr ⟨_, List.mem_of_getElem? hg, rfl⟩
  refine .requests ?_ ?_
  · simp only [remaining, send, List.map_set]
    have hlength : group < (c.groups.map GroupCourse.todo).length := by rwa [List.length_map]
    have hsame : todo = (c.groups.map GroupCourse.todo)[group] := by rw [List.getElem_map, hget]
    exact (congrArg (List.set _ group) hsame).trans (List.set_getElem_self hlength)
  · simp only [remaining, send]
    rw [List.countP_set hlt, hget]
    simp only [Option.isNone_none, Option.isNone_some, if_true, Bool.false_eq_true, if_false]
    omega

/-- A group whose effect is answered comes to what follows it. -/
theorem less_of_goOn {σ : Type} {c : Course σ} {group : Nat} {effect : Effect}
    {next : effect.Answer → Program Task} {wakeAt : Duration} {service : Option (Service σ)}
    (a : Answered σ effect.Answer)
    (hg : c.groups[group]? = some { todo := .act effect next, wakeAt, service }) :
    Remaining.Less (c.goOn group next a).remaining c.remaining := by
  refine .programs ?_
  simp only [remaining, goOn, List.map_set]
  refine Program.oneFollows_set _ ?_
  simp [hg]

theorem less_of_act {σ : Type} {ledger : Ledger σ} {c later : Course σ} {group : Nat}
    (h : c.act? ledger group = some later) : Remaining.Less later.remaining c.remaining := by
  simp only [act?] at h
  split at h
  · rename_i effect next wakeAt service hg
    split at h
    · split at h
      · rename_i mode request hunsent
        obtain rfl := Option.some.inj h
        cases service with
        | none => exact less_of_send _ hg
        | some service => cases hunsent
      · obtain rfl := Option.some.inj h
        exact less_of_goOn _ hg
    · cases h
  · cases h

theorem less_of_record {σ : Type} {c later : Course σ} (h : c.record? = some later) :
    Remaining.Less later.remaining c.remaining := by
  simp only [record?] at h
  split at h
  · rename_i event he
    simp only [Option.some.injEq] at h
    subst h
    refine .events rfl rfl rfl rfl ?_
    have hne : c.world.reported ≠ [] := by
      intro hnil
      simp [hnil] at he
    simp only [remaining, List.length_dropLast]
    have := List.length_pos_iff.mpr hne
    omega
  · simp at h

theorem less_of_wait {σ : Type} {c later : Course σ} (h : c.wait? = some later) :
    Remaining.Less later.remaining c.remaining := by
  simp only [wait?] at h
  split at h
  · simp at h
  · rename_i t rest hf
    simp only [Option.some.injEq] at h
    subst h
    refine .waits rfl rfl rfl rfl rfl ?_
    have hmem := foldl_min_mem t rest
    rw [← hf] at hmem
    simp only [futureTimes, List.mem_filter, decide_eq_true_eq] at hmem
    exact countP_lt_of_between hmem.1 hmem.2 (Nat.le_refl _)

/-- Every step of a run leaves less to do. -/
theorem remaining_of_step {σ : Type} {ledger : Ledger σ} {c later : Course σ} {label : RunLabel}
    (h : c.step ledger label = some later) : Remaining.Less later.remaining c.remaining := by
  cases label with
  | submit =>
    simp only [step] at h
    split at h
    · rename_i hw
      simp only [Option.some.injEq] at h
      rw [← h]
      exact less_of_submit hw
    · simp at h
  | work worker move =>
    simp only [step] at h
    split at h
    · rename_i ha
      simp only [Option.map_eq_some_iff] at h
      obtain ⟨executor, he, rfl⟩ := h
      refine .load rfl rfl rfl (load_of_step ?_ he)
      cases move <;> simp_all [admits, WorkerMove.isProgress]
    · simp at h
  | act group => exact less_of_act h
  | record => exact less_of_record h
  | wait => exact less_of_wait h

/-! ## One schedule -/

/-- The order in which the moves of a worker are tried. -/
def workMoves : List WorkerMove := [.finish, .check, .lock, .receive]

/-- Whether a step is possible. -/
def can {σ : Type} (ledger : Ledger σ) (c : Course σ) (label : RunLabel) : Bool :=
  (c.step ledger label).isSome

/-- The steps that workers could make, in the order in which they are tried. -/
def workLabels {σ : Type} (c : Course σ) : List RunLabel :=
  (List.range (min c.executor.concurrency c.groups.length)).flatMap fun worker =>
    workMoves.map (RunLabel.work worker)

def actLabels {σ : Type} (c : Course σ) : List RunLabel :=
  c.executor.pools.flatMap fun pool => pool.workers.filterMap fun w => match w with
    | .running group => some (RunLabel.act group)
    | _ => none

/-- The steps in the order in which the schedule tries them. -/
def preferences {σ : Type} (c : Course σ) : List RunLabel :=
  [RunLabel.record, .submit] ++ c.workLabels ++ c.actLabels ++ [.wait]

/-- The step that the schedule takes next; none once the run is over. -/
def next? {σ : Type} (ledger : Ledger σ) (c : Course σ) : Option RunLabel :=
  if c.isOver then none else c.preferences.find? (c.can ledger)

/-- Follows the schedule until the run is over or nothing can go on. -/
def drive {σ : Type} (ledger : Ledger σ) (c : Course σ) : Course σ :=
  match c.next? ledger with
  | none => c
  | some label =>
    match _taken : c.step ledger label with
    | none => c
    | some later => drive ledger later
termination_by c.remaining
decreasing_by exact Remaining.rel_of_less (remaining_of_step _taken)

end Course

end LedgerBench
