import LedgerBench.Proofs.Run.Workers
/-!
Variables of a run.

All groups of a run store and look up variables in one place, so what a group finds under a name is
what was stored there last by whichever group did. What is proved:
  1. `Runs.get?_eq`: at any time a name has the value that was last stored under it in the history,
     or the one it began with.
  2. `reference_after_set`: a group that looks up what it stored finds it unless another group
     stored something else under the name in between. With one worker, or one group, no other group
     comes in between.
  3. `reference_of_other`: with two workers a group can find the value of another group.
-/

namespace LedgerBench

open Program

def Program.Exchange.stored? : Exchange → Option (List Char × List Char)
  | ⟨.resolve .set body, _⟩ => Text.splitPair ',' body
  | _ => none

/-- The value that some groups last stored under a name. -/
def Act.lastStored (name : List Char) (acts : List Act) : Option (List Char) :=
  (acts.filterMap fun a => a.exchange.stored?).reverse.lookup name

namespace Act

theorem lastStored_append (name : List Char) (xs ys : List Act) :
    lastStored name (xs ++ ys) = (lastStored name ys).or (lastStored name xs) := by
  rw [lastStored, List.filterMap_append, List.reverse_append, List.lookup_append]
  rfl

theorem lastStored_set {group : Nat} {body name value : List Char} {answer : Resolution}
    (hbody : Text.splitPair ',' body = some (name, value)) :
    lastStored name [⟨group, .resolve .set body, answer⟩] = some value := by
  simp [lastStored, Exchange.stored?, hbody]

end Act

/-! ## Storing and looking up -/

theorem Variables.get?_set_eq_or (v : Variables) (stored name value : List Char) :
    (v.set stored value).get? name = ([(stored, value)].lookup name).or (v.get? name) := by
  rw [Variables.get?_set]
  by_cases h : name = stored
  · subst h
    simp
  · rw [List.lookup_singleton, beq_false_of_ne h]
    simp [h]

namespace World

variable {σ : Type} (service : Service σ) (w : World σ)

/-- An effect leaves a name with the value that it stores there, if it does. -/
theorem get?_answer (effect : Effect) (group : Nat) (name : List Char) :
    (w.answer service effect).world.scope.bindings.get? name
      = (Act.lastStored name [⟨group, effect, (w.answer service effect).answer⟩]).or
        (w.scope.bindings.get? name) := by
  cases effect with
  | resolve form body =>
    cases form with
    | set =>
      cases hbody : Text.splitPair ',' body with
      | none =>
        simp [answer, Scope.resolve, Act.lastStored, Exchange.stored?, hbody]
      | some pair =>
        obtain ⟨stored, value⟩ := pair
        have hlast : Act.lastStored name
            [⟨group, .resolve .set body, (w.answer service (.resolve .set body)).answer⟩]
            = [(stored, value)].lookup name := by
          simp [Act.lastStored, Exchange.stored?, hbody]
        rw [hlast]
        simp only [answer, Scope.resolve, hbody]
        exact Variables.get?_set_eq_or _ _ _ _
    | sequence =>
      simp only [answer, Scope.resolve]
      split <;> rfl
    | random =>
      simp only [answer, Scope.resolve]
      split <;> rfl
    | file =>
      simp only [answer, Scope.resolve]
      split <;> rfl
    | pad => rfl
    | reference =>
      simp only [answer, Scope.resolve]
      split <;> rfl
  | now => rfl
  | submit request => rfl
  | query request => rfl
  | sleep delay => rfl
  | emit event => rfl

theorem answer_reference {name value : List Char} (h : w.scope.bindings.get? name = some value) :
    (w.answer service (.resolve .reference name)).answer = .ok value := by
  simp only [answer, Scope.resolve, h]

end World

namespace Course

variable {σ : Type} {ledger : Ledger σ} {c later : Course σ} {acts : List Act}

theorem Step.get?_eq (h : Step ledger c acts later) (name : List Char) :
    later.world.scope.bindings.get? name = (Act.lastStored name acts).or
      (c.world.scope.bindings.get? name) := by
  cases h with
  | submit hmay =>
    rw [submitNext_world]
    rfl
  | work ha he => rfl
  | send hg hcall hr => rfl
  | act service hg hserves hr => exact World.get?_answer service c.world _ _ name
  | record hr => rfl
  | wait clock => rfl

/-- A name has the value that was last stored under it, by whichever group. -/
theorem Runs.get?_eq (h : Runs ledger c acts later) (name : List Char) :
    later.world.scope.bindings.get? name = (Act.lastStored name acts).or
      (c.world.scope.bindings.get? name) := by
  induction h with
  | start c => rfl
  | step head tail ih =>
    rw [ih, head.get?_eq, Act.lastStored_append, Option.or_assoc]

/-- What a group looks up after it stored something under the name. -/
theorem Runs.reference_eq {before mid after : List Act} {group : Nat} {body name value : List Char}
    {set found : Resolution}
    (h : Runs ledger c (before ++ ⟨group, .resolve .set body, set⟩ ::
      (mid ++ ⟨group, .resolve .reference name, found⟩ :: after)) later)
    (hbody : Text.splitPair ',' body = some (name, value)) :
    found = .ok ((Act.lastStored name mid).getD value) := by
  obtain ⟨here, next, -, hset, hrest⟩ := h.split
  obtain ⟨there, last, hmid, hreference, -⟩ := hrest.split
  obtain ⟨-, -, service, rfl, -, -⟩ := hreference.of_singleton
  apply World.answer_reference
  rw [hmid.get?_eq, hset.get?_eq, Act.lastStored_set hbody]
  -- What was stored in between hides what the group stored, and that hides what was there before.
  cases Act.lastStored name mid with
  | none => rfl
  | some w => rfl

/-- Where there is one worker, a group is alone between two of its exchanges. -/
theorem Runs.alone_between {before mid after : List Act} {group : Nat} {first second : Exchange}
    (h : Runs ledger c (before ++ ⟨group, first⟩ :: (mid ++ ⟨group, second⟩ :: after)) later)
    (hc : c.Staffed 1) :
    ∀ a ∈ mid, a.group = group := by
  obtain ⟨here, next, hbefore, hfirst, hrest⟩ := h.split
  obtain ⟨there, last, hmid, hsecond, -⟩ := hrest.split
  obtain ⟨hrun, -, -, -, -, hexecutor⟩ := hfirst.of_singleton
  obtain ⟨-, ⟨g, hg, hundone⟩, -⟩ := hsecond.of_singleton
  have hnext : next.isRunning group = true := by
    rw [isRunning, hexecutor]
    exact hrun
  exact hmid.alone ((hbefore.staffed hc).of_step hfirst).1 hnext hg hundone

end Course

namespace Bench

variable {σ : Type} {b : Bench σ} {s : Session σ} {specs : List CallSpec} {mode : CallMode}
  {startedAt : Timestamp} {start later : Course σ} {labels : List RunLabel}

/-- A group that stores a value and later looks the name up, without storing anything else there in
between, finds what was last stored by any group: its own value exactly if no other group stored a
different one. With one worker or one group it always finds its own. -/
theorem reference_after_set (hb : b.begin s specs mode startedAt = .ok start)
    (hr : start.run b.ledger labels = some later) {before mid after : List Act} {group : Nat}
    {body name value : List Char} {set found : Resolution}
    (hh : start.history b.ledger labels = before ++ ⟨group, .resolve .set body, set⟩ ::
      (mid ++ ⟨group, .resolve .reference name, found⟩ :: after))
    (hbody : Text.splitPair ',' body = some (name, value))
    (hown : Act.lastStored name (mid.filter fun a => a.group = group) = none) :
    found = .ok ((Act.lastStored name mid).getD value) ∧
      (found = .ok value ↔ ∀ other, Act.lastStored name mid = some other → other = value) ∧
      (b.config.concurrency ≤ 1 ∨ b.config.iterations ≤ 1 → found = .ok value) := by
  have hbegun := begun_of_begin hb
  have hruns := Course.runs_of_run hr
  rw [hh] at hruns
  have hfound := hruns.reference_eq hbody
  refine ⟨hfound, ?_, ?_⟩
  · rw [hfound]
    cases Act.lastStored name mid with
    | none => simp
    | some other => simp
  · intro hfew
    have halone : ∀ a ∈ mid, a.group = group := by
      rcases hfew with hworker | hgroup
      · have hstaffed := hbegun.staffed
        rw [Nat.max_eq_right hworker] at hstaffed
        exact hruns.alone_between hstaffed
      · intro a ha
        have hlt := hruns.group_lt
        rw [hbegun.length_groups] at hlt
        have hmid := hlt a (by simp [ha])
        have hself : group < b.config.iterations := hlt ⟨group, .resolve .set body, set⟩ (by simp)
        omega
    -- So what was stored in between the group stored itself, and it stored nothing.
    rw [List.filter_eq_self.mpr fun a ha => decide_eq_true (halone a ha)] at hown
    rw [hfound, hown]
    rfl

/-! ### A value of another group -/

/-- A ledger that commits every call. -/
def committing : Ledger Nat := Service.atOnce {
  submit _ calls :=
    { reply := .answered { transactionId := "tx", code := .valid }, next := calls + 1 }
  query _ calls := { reply := .panicked "no queries", next := calls + 1 } }

def crossing : Bench Nat where
  config := { concurrency := 2, iterations := 2 }
  policy := {}
  ledger := committing
  handlers := []

/-- A batch whose first call stores a number and whose second looks it up. -/
def storing : List CallSpec :=
  [{ function := "put", args := ["$set(id,$seq())"] },
    { function := "get", args := ["$\x7bid\x7d"] }]

/-- A schedule in which the second group stores its number after the first one did and before the
first one looks it up. -/
def crossed : List RunLabel :=
  [.submit, .submit, .work 0 .check, .work 0 .lock, .work 0 .receive, .work 1 .check, .work 1 .lock,
    .work 1 .receive]
    ++ List.replicate 4 (RunLabel.act 0) ++ List.replicate 4 (RunLabel.act 1) ++ List.replicate 7
      (RunLabel.act 0)

def crossedHistory (start : Course Nat) : List Act := start.history crossing.ledger crossed

/-- The exchanges after the first group stored its number and before it looks it up. -/
def between (start : Course Nat) : List Act := ((crossedHistory start).drop 4).take 9

theorem history_crossed :
    ∃ start, crossing.begin fresh storing .submit ⟨0⟩ = .ok start ∧
      ∃ later, start.run crossing.ledger crossed = some later ∧
        crossedHistory start = (crossedHistory start).take 3 ++
          ⟨0, .resolve .set "id,1".toList, Except.ok "1".toList⟩ ::
            (between start ++ ⟨0, .resolve .reference "id".toList, Except.ok "2".toList⟩ :: []) ∧
        Text.splitPair ',' "id,1".toList = some ("id".toList, "1".toList) ∧
        Act.lastStored "id".toList ((between start).filter fun a => a.group = 0) = none := by
  refine ⟨_, rfl, ?_⟩
  apply exists_of_any
  decide +kernel

/-- The first group stored the number 1, and nothing else under the name; it looks the name up and
finds the number 2. -/
theorem reference_of_other :
    ∃ start, crossing.begin fresh storing .submit ⟨0⟩ = .ok start ∧
      ∃ later, start.run crossing.ledger crossed = some later ∧
        ∃ (before mid after : List Act) (set found : Resolution),
          start.history crossing.ledger crossed = before ++ ⟨0, .resolve .set "id,1".toList, set⟩ ::
            (mid ++ ⟨0, .resolve .reference "id".toList, found⟩ :: after) ∧
          Text.splitPair ',' "id,1".toList = some ("id".toList, "1".toList) ∧
          Act.lastStored "id".toList (mid.filter fun a => a.group = 0) = none ∧
          found = .ok "2".toList ∧ found ≠ .ok "1".toList := by
  obtain ⟨start, hb, later, hr, hh, hbody, hown⟩ := history_crossed
  exact ⟨start, hb, later, hr, _, between start, [], _, _, hh, hbody, hown, rfl, by decide⟩

theorem reference_after_set_crossed :
    ∃ start, crossing.begin fresh storing .submit ⟨0⟩ = .ok start ∧
      ∃ later, start.run crossing.ledger crossed = some later ∧
        Except.ok "2".toList =
          (.ok ((Act.lastStored "id".toList (between start)).getD "1".toList) : Resolution) ∧
        ((.ok "2".toList : Resolution) = .ok "1".toList ↔
          ∀ other, Act.lastStored "id".toList (between start) = some other → other = "1".toList) ∧
        (crossing.config.concurrency ≤ 1 ∨ crossing.config.iterations ≤ 1 →
          (.ok "2".toList : Resolution) = .ok "1".toList) := by
  obtain ⟨start, hb, later, hr, hh, hbody, hown⟩ := history_crossed
  exact ⟨start, hb, later, hr, reference_after_set hb hr hh hbody hown⟩

end Bench

end LedgerBench
