import LedgerBench.Proofs.Task.Trace
/-!
Using a call again and again.

A call may be invoked and abandoned any number of times and in any order. An invocation that panics
leaves it half done, with its start reported and its outcome owed, until somebody abandons it, which
may be never. What is proved:
  1. `CallTask.turn_of_perform`: the four things that a use of a call can come to, by what it
     reports and how it leaves the call.
  2. `CallTask.Kept`: what a call keeps of everything that it has reported. A new call keeps
     nothing, and every use keeps it in step (`Kept.turn`, `Kept.uses`).
  3. `CallTask.reported_of_uses`: so a call reports at most one outcome for each start, `abandon`
     reports the one that is owed and nothing else, and the call holds the attempts and the error of
     what it last reported.
-/

namespace LedgerBench

open Program

/-! ## Uses -/

/-- What can be done with a task. -/
inductive Operation where
  | invoke
  | abandon (reason : String)
  deriving DecidableEq, Repr

/-- What was done with a task, what was exchanged for it, and how the task was before and after. -/
structure Use (α : Type) where
  operation : Operation
  before : α
  exchanges : List Exchange
  ending : Ending
  after : α

/-- The events that some uses report, in order. -/
def told {α : Type} (us : List (Use α)) : List Event := us.flatMap fun u => events u.exchanges

/-- Uses that follow each other: each is one of what the use before it has left. -/
inductive Uses {α : Type} (perform : Operation → α → Program (Ending × α)) :
    α → List (Use α) → α → Prop where
  | nil (a : α) : Uses perform a [] a
  | cons {a mid left : α} {operation : Operation} {xs : List Exchange} {ending : Ending}
    {us : List (Use α)}
      (head : Path (perform operation a) xs (ending, mid)) (tail : Uses perform mid us left) :
      Uses perform a (⟨operation, a, xs, ending, mid⟩ :: us) left

namespace Uses

variable {α : Type} {perform : Operation → α → Program (Ending × α)} {a left : α}
  {us earlier later : List (Use α)} {u : Use α}

theorem split (h : Uses perform a (earlier ++ u :: later) left) :
    Uses perform a earlier u.before ∧ Path (perform u.operation u.before) u.exchanges (u.ending,
        u.after) ∧ Uses perform u.after later left := by
  induction earlier generalizing a with
  | nil =>
    cases h with
    | cons head tail => exact ⟨.nil _, head, tail⟩
  | cons v earlier ih =>
    cases h with
    | cons head tail =>
      obtain ⟨hearlier, hpath, hlater⟩ := ih tail
      exact ⟨.cons head hearlier, hpath, hlater⟩

/-- Whatever is to be done can be done. -/
theorem exists_of (perform : Operation → α → Program (Ending × α))
    (operations : List Operation) (a : α) :
    ∃ us left, Uses perform a us left ∧ us.map Use.operation = operations := by
  induction operations generalizing a with
  | nil => exact ⟨[], a, .nil a, rfl⟩
  | cons operation operations ih =>
    obtain ⟨xs, ⟨ending, mid⟩, hpath⟩ := exists_path (perform operation a)
    obtain ⟨us, left, hus, rfl⟩ := ih mid
    exact ⟨_, left, .cons hpath hus, rfl⟩

end Uses

/-! ## Outcomes and starts -/

/-- The events since the last start; all of them where there was none. -/
def sinceStart (log : List Event) : List Event :=
  (log.reverse.takeWhile fun e => !e.isStart).reverse

theorem sinceStart_start (log : List Event) (task : TaskId) (function : String) :
    sinceStart (log ++ [.started task function]) = [] := by
  simp [sinceStart, Event.isStart]

theorem sinceStart_completed (log : List Event) (o : Outcome) :
    sinceStart (log ++ [.completed o]) = sinceStart log ++ [.completed o] := by
  simp [sinceStart, Event.isStart]

/-- A stretch without a start is a part of what there was since the last start. -/
theorem sinceStart_append {between : List Event} (h : ∀ e ∈ between, ¬ e.isStart)
    (before : List Event) :
    sinceStart (before ++ between) = sinceStart before ++ between := by
  have hstretch : ∀ e ∈ between.reverse, (!e.isStart) = true := by
    intro e he
    simpa using h e (List.mem_reverse.mp he)
  rw [sinceStart, List.reverse_append, List.takeWhile_append_of_pos hstretch, List.reverse_append,
    List.reverse_reverse, sinceStart]

namespace CallTask

variable {binding : Binding} {c left : CallTask} {log : List Event} {o : Outcome}

def perform (binding : Binding) : Operation → CallTask → Program (Ending × CallTask)
  | .invoke, c => c.invoke binding
  | .abandon reason, c => do pure (.returned, ← c.abandon reason)

/-! ## One use -/

/-- A use that reports an outcome does so last of all, and leaves the call holding it. -/
structure Closes (xs : List Exchange) (o : Outcome) (left : CallTask) : Prop where
  last : ∃ ys, xs = ys ++ [⟨.emit (.completed o), ()⟩]
  reported : left.reported = true
  attempts : o.attempts = left.attempts
  lastError : left.lastError = o.error

/-- What a use of a call comes to. -/
inductive Turn (c : CallTask) : Operation → List Exchange → Ending → CallTask → Prop where
  | settled {xs : List Exchange} {o : Outcome} {left : CallTask}
    (hevents : events xs = [.started c.id c.spec.function, .completed o])
      (h : Closes xs o left) : Turn c .invoke xs .returned left
  /-- The invocation panics: the start was reported, and the outcome is owed. -/
  | panicked {xs : List Exchange} {reason : String} {left : CallTask}
    (hevents : events xs = [.started c.id c.spec.function])
      (hreported : left.reported = false) (herror : left.lastError = c.lastError) :
        Turn c .invoke xs (.panicked reason) left
  /-- The outcome is owed, and now it is reported. -/
  | owed {xs : List Exchange} {reason : String} {o : Outcome} {left : CallTask}
    (howed : c.reported = false)
      (hevents : events xs = [.completed o]) (h : Closes xs o left)
        (herror : o.error = some (CallError.panicked reason)) :
      Turn c (.abandon reason) xs .returned left
  | spared {xs : List Exchange} {reason : String} (hreported : c.reported = true)
    (hevents : events xs = []) :
      Turn c (.abandon reason) xs .returned c

/-- The four are all that a use can come to. -/
theorem turn_of_perform {operation : Operation} {xs : List Exchange} {ending : Ending}
    (h : Path (c.perform binding operation) xs (ending, left)) :
    Turn c operation xs ending left := by
  cases operation with
  | invoke =>
    obtain ⟨i, rfl, ⟨-, rfl, rfl, rfl⟩ | ⟨reason, -, rfl, rfl, rfl⟩⟩ := path_invoke_cases h
    · have hlast : i.exchanges =
          i.making ++ [⟨.now, i.endedAt⟩] ++ [⟨.emit (.completed i.outcome), ()⟩] := by
        rw [List.append_assoc]
        rfl
      exact .settled i.events_eq ⟨⟨_, hlast⟩, rfl, rfl, rfl⟩
    · exact .panicked i.events_making rfl rfl
  | abandon reason =>
    obtain ⟨later, habandon, hpair⟩ := path_bind_pure_iff.mp h
    obtain ⟨rfl, rfl⟩ := Prod.mk.inj hpair
    cases hc : c.reported with
    | false =>
      obtain ⟨endedAt, rfl, rfl⟩ := (path_complete_iff hc).mp habandon
      exact .owed hc rfl ⟨⟨[⟨.now, endedAt⟩], rfl⟩, rfl, rfl, rfl⟩ rfl
    | true =>
      obtain ⟨⟨now, rfl⟩, rfl⟩ := path_complete_of_reported hc habandon
      exact .spared hc rfl

/-- An outcome that a use reports is the one that closes it. -/
theorem Turn.closes {operation : Operation} {xs : List Exchange} {ending : Ending}
    (h : Turn c operation xs ending left) (ho : .completed o ∈ events xs) : Closes xs o left := by
  cases h with
  | settled hevents h =>
    rw [hevents] at ho
    simp only [List.mem_cons, reduceCtorEq, Event.completed.injEq, List.not_mem_nil, or_false,
      false_or] at ho
    exact ho ▸ h
  | panicked hevents =>
    rw [hevents] at ho
    simp at ho
  | owed _ hevents h =>
    rw [hevents, List.mem_singleton, Event.completed.injEq] at ho
    exact ho ▸ h
  | spared _ hevents =>
    rw [hevents] at ho
    cases ho

/-! ## Many uses -/

/-- What a call keeps of everything that it has reported. -/
structure Kept (c : CallTask) (log : List Event) : Prop where
  /-- At no time was there more than one outcome since the last start. -/
  spaced : ∀ front, front <+: log → (outcomes (sinceStart front)).length ≤ 1
  reported : (outcomes (sinceStart log)).length = if c.reported then 1 else 0
  lastError : c.lastError = (outcomes log).getLast?.bind Outcome.error

namespace Kept

theorem new (id : TaskId) (spec : CallSpec) : Kept { id, spec } [] where
  spaced := by
    rintro front hfront
    rw [List.prefix_nil.mp hfront]
    exact Nat.zero_le 1
  reported := rfl
  lastError := rfl

theorem concat {e : Event} (h : Kept c log)
    (hreported : (outcomes (sinceStart (log ++ [e]))).length = if left.reported then 1 else 0)
    (herror : left.lastError = (outcomes (log ++ [e])).getLast?.bind Outcome.error) :
    Kept left (log ++ [e]) where
  spaced := by
    intro front hfront
    rcases List.prefix_concat_iff.mp hfront with rfl | hfront
    · rw [hreported]
      split <;> decide
    · exact h.spaced front hfront
  reported := hreported
  lastError := herror

/-- A start makes an outcome owed, whether or not there was one before. -/
theorem start (h : Kept c log) (hreported : left.reported = false)
    (herror : left.lastError = c.lastError) (task : TaskId) (function : String) :
    Kept left (log ++ [.started task function]) := by
  refine h.concat ?_ ?_
  · rw [sinceStart_start, hreported]
    rfl
  · have hstart : outcomes [.started task function] = [] := rfl
    rw [outcomes_append, hstart, List.append_nil, herror, h.lastError]

theorem complete (h : Kept c log) (howed : c.reported = false) (hreported : left.reported = true)
    (herror : left.lastError = o.error) :
    Kept left (log ++ [.completed o]) := by
  have hnew : outcomes [.completed o] = [o] := rfl
  refine h.concat ?_ ?_
  · rw [sinceStart_completed, outcomes_append, hnew, List.length_append, h.reported,
      howed, hreported]
    rfl
  · rw [outcomes_append, hnew, List.getLast?_concat, herror]
    rfl

/-- Every use keeps the call in step with what was reported. -/
theorem turn {operation : Operation} {xs : List Exchange} {ending : Ending} (h : Kept c log)
    (hturn : Turn c operation xs ending left) :
    Kept left (log ++ events xs) := by
  cases hturn with
  | settled hevents hcloses =>
    -- In between the call owes its outcome.
    let owing : CallTask := { c with reported := false }
    have howes : owing.reported = false := rfl
    have howing : owing.Kept (log ++ [.started c.id c.spec.function]) :=
      h.start howes rfl c.id c.spec.function
    rw [hevents, List.append_cons]
    exact howing.complete howes hcloses.reported hcloses.lastError
  | panicked hevents hreported herror =>
    rw [hevents]
    exact h.start hreported herror c.id c.spec.function
  | owed howed hevents hcloses =>
    rw [hevents]
    exact h.complete howed hcloses.reported hcloses.lastError
  | spared _ hevents =>
    rw [hevents, List.append_nil]
    exact h

theorem uses {us : List (Use CallTask)} (h : Kept c log) (hus : Uses (perform binding) c us left) :
    Kept left (log ++ told us) := by
  induction hus generalizing log with
  | nil c =>
    rw [told, List.flatMap_nil, List.append_nil]
    exact h
  | cons head tail ih =>
    rw [told, List.flatMap_cons, ← List.append_assoc]
    exact ih (h.turn (turn_of_perform head))

/-- A stretch without a start has at most one outcome. -/
theorem length_outcomes_le {before between after : List Event}
    (h : Kept c (before ++ between ++ after)) (hstretch : ∀ e ∈ between, ¬ e.isStart) :
    (outcomes between).length ≤ 1 := by
  have hfront := h.spaced (before ++ between) (List.prefix_append _ _)
  rw [sinceStart_append hstretch, outcomes_append, List.length_append] at hfront
  omega

end Kept

/-- Whatever is done with a new call, and whatever the ledger does: it reports at most one outcome
between two starts, before the first and after the last; abandoning it reports that it failed for
the reason, exactly if no outcome was reported since the last start, and changes nothing otherwise;
an outcome comes last of all in its use, with the attempts that the call then counts; and the call's
last error is that of the last outcome. -/
theorem reported_of_uses {id : TaskId} {spec : CallSpec} {us : List (Use CallTask)}
    {left : CallTask} (h : Uses (perform binding) { id, spec } us left) :
    (∀ before between after, told us = before ++ between ++ after → (∀ e ∈ between, ¬ e.isStart) →
        (outcomes between).length ≤ 1) ∧
    ∀ earlier u later, us = earlier ++ u :: later →
      (∀ reason, u.operation = .abandon reason →
        (outcomes (sinceStart (told earlier)) = [] → ∃ o, events u.exchanges = [.completed o] ∧
          o.error = some { kind := .persistent, message := "task panicked: " ++ reason,
                           transactionId := none }) ∧
        (outcomes (sinceStart (told earlier)) ≠ [] → events u.exchanges = [] ∧
          u.after = u.before)) ∧
      (∀ o, .completed o ∈ events u.exchanges →
        (∃ xs, u.exchanges = xs ++ [⟨.emit (.completed o), ()⟩]) ∧ o.attempts = u.after.attempts) ∧
      u.after.lastError = (outcomes (told (earlier ++ [u]))).getLast?.bind Outcome.error := by
  have hnew := Kept.new id spec
  constructor
  · intro before between after htold hstretch
    have hkept := hnew.uses h
    rw [List.nil_append, htold] at hkept
    exact hkept.length_outcomes_le hstretch
  · rintro earlier ⟨operation, before, xs, ending, after⟩ later rfl
    obtain ⟨hearlier, hpath, -⟩ := h.split
    have hbefore := hnew.uses hearlier
    have hturn := turn_of_perform hpath
    have hafter := hbefore.turn hturn
    rw [List.nil_append] at hbefore hafter
    refine ⟨?_, fun o ho => ⟨(hturn.closes ho).last, (hturn.closes ho).attempts⟩, ?_⟩
    · rintro reason rfl
      have howed := hbefore.reported
      cases hturn with
      | owed hreported hevents hcloses herror =>
        rw [hreported] at howed
        exact ⟨fun _ => ⟨_, hevents, herror⟩, fun hsome =>
          absurd (List.length_eq_zero_iff.mp howed) hsome⟩
      | spared hreported hevents =>
        rw [hreported] at howed
        refine ⟨fun hnone => ?_, fun _ => ⟨hevents, rfl⟩⟩
        rw [hnone] at howed
        cases howed
    · rw [told, List.flatMap_append, List.flatMap_singleton]
      exact hafter.lastError

/-! ### A call that is abandoned, invoked with a panic, and abandoned twice -/

/-- What abandoning a call reports while no time passes. -/
def abandoned (attempts : Nat) (reason : String) : Outcome where
  task := Task.putCall.id
  function := "put"
  attempts := attempts
  duration := Duration.zero
  error := some (CallError.panicked reason)
  retried := []
  transactionId := none
  payload := none

/-- A new call owes an outcome, and so does one that panicked; the last time there is none to
report. -/
theorem reported_of_uses_panicked :
    ∃ us left, Uses (perform Task.submitting) Task.putCall us left ∧
      us.map Use.operation = [.abandon "early", .invoke, .abandon "bang", .abandon "late"] ∧
      told us = [.completed (abandoned 0 "early"), .started Task.putCall.id "put",
          .completed (abandoned 1 "bang")] ∧
      (∀ before between after, told us = before ++ between ++ after → (∀ e ∈ between, ¬ e.isStart) →
          (outcomes between).length ≤ 1) ∧
      left.lastError = some (CallError.panicked "bang") := by
  let clock : Exchange := ⟨.now, Duration.zero⟩
  let report (o : Outcome) : Exchange := ⟨.emit (.completed o), ()⟩
  let started : Exchange := ⟨.emit (.started Task.putCall.id "put"), ()⟩
  let panicked : Exchange := ⟨.submit (Task.putCall.request Task.submitting []), .panicked "bang"⟩
  let first : CallTask :=
    { Task.putCall with reported := true, lastError := some (CallError.panicked "early") }
  let owing : CallTask :=
    { first with attempts := 1, startedAt := some Duration.zero, reported := false }
  let last : CallTask :=
    { owing with reported := true, lastError := some (CallError.panicked "bang") }
  have hearly : Path (perform Task.submitting (.abandon "early") Task.putCall)
      [clock, report (abandoned 0 "early")] (.returned, first) :=
    .act (.act (.done _))
  have hinvoke : Path (perform Task.submitting .invoke first) [clock, started, panicked]
      (.panicked "bang", owing) := .act (.act (.act (.done _)))
  have hbang : Path (perform Task.submitting (.abandon "bang") owing)
      [clock, report (abandoned 1 "bang")] (.returned, last) := .act (.act (.done _))
  have hlate : Path (perform Task.submitting (.abandon "late") last) [clock] (.returned, last) :=
    .act (.done _)
  have huses := Uses.cons hearly (.cons hinvoke (.cons hbang (.cons hlate (.nil last))))
  obtain ⟨hspaced, hall⟩ := reported_of_uses huses
  obtain ⟨-, -, herror⟩ := hall [_, _, _] _ [] rfl
  exact ⟨_, last, huses, rfl, rfl, hspaced, herror⟩

end CallTask

end LedgerBench
