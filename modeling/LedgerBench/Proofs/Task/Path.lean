import LedgerBench.Template.Expand
import LedgerBench.Task.World
/-!
Paths through programs, one rule per combinator.

`Path p xs a` says that `p` can make the exchanges `xs` and end with `a`, whatever answers it gets.
What is proved:
  1. `path_bind_iff`, `path_bind_pure_iff`, `path_perform_iff`: a path of a sequence is a path of
     its first part and then one of its second, which adds nothing if it only reads a value, and an
     effect alone is one exchange.
  2. `After p xs q`: `q` is what `p` has left after `xs`. A path is what leaves a value
     (`path_iff_after`), and whatever is left can still be finished (`exists_path`). So what holds
     of every full path can be read back to every beginning of one.
  3. `Only P p`: every effect of `p` on every path has `P`. Expanding arguments only resolves
     expressions (`only_expandArgs`), and so reports nothing (`events_of_isResolve`).
  4. `path_run`: running a program alone in a world is one of its paths, and the events of the world
     are those that the path reports.
-/

namespace LedgerBench

instance (effect : Effect) : Nonempty effect.Answer := by
  cases effect with
  | now => exact ⟨Duration.zero⟩
  | resolve form body => exact ⟨.ok body⟩
  | submit request => exact ⟨.panicked ""⟩
  | query request => exact ⟨.panicked ""⟩
  | sleep delay => exact ⟨()⟩
  | emit event => exact ⟨()⟩

namespace Event

def isStart : Event → Bool
  | started _ _ => true
  | _ => false

def isGroupEnd : Event → Bool
  | groupCompleted _ _ _ _ => true
  | _ => false

def outcome? : Event → Option Outcome
  | completed o => some o
  | _ => none

end Event

/-- The outcomes among some events, in order. -/
def outcomes (events : List Event) : List Outcome := events.filterMap Event.outcome?

theorem outcomes_append (xs ys : List Event) : outcomes (xs ++ ys) = outcomes xs ++ outcomes ys :=
  List.filterMap_append

theorem mem_outcomes {events : List Event} {o : Outcome} :
    o ∈ outcomes events ↔ .completed o ∈ events := by
  constructor
  · intro h
    obtain ⟨event, hevent, ho⟩ := List.mem_filterMap.mp h
    cases event with
    | completed o' =>
      obtain rfl := Option.some.inj ho
      exact hevent
    | started task function => cases ho
    | groupCompleted group members attempts error => cases ho
  · intro h
    exact List.mem_filterMap.mpr ⟨_, h, rfl⟩

/-- Whether an effect resolves an expression. -/
def Effect.IsResolve : Effect → Prop
  | .resolve _ _ => True
  | _ => False

namespace Program

variable {α β : Type}

/-! ## Paths of combinators -/

theorem path_done_iff {a b : α} {xs : List Exchange} : Path (done a) xs b ↔ xs = [] ∧ b = a := by
  constructor
  · intro h
    cases h
    exact ⟨rfl, rfl⟩
  · rintro ⟨rfl, rfl⟩
    exact .done _

theorem path_pure_iff {a b : α} {xs : List Exchange} :
    Path (pure a) xs b ↔ xs = [] ∧ b = a := path_done_iff

theorem path_act_iff {effect : Effect} {next : effect.Answer → Program α}
    {xs : List Exchange} {a : α} :
    Path (act effect next) xs a ↔
      ∃ answer rest, xs = ⟨effect, answer⟩ :: rest ∧ Path (next answer) rest a := by
  constructor
  · intro h
    cases h with
    | act tail => exact ⟨_, _, rfl, tail⟩
  · rintro ⟨answer, rest, rfl, tail⟩
    exact .act tail

theorem path_bind_iff {p : Program α} {f : α → Program β} {xs : List Exchange} {b : β} :
    Path (p >>= f) xs b ↔ ∃ ys zs a, xs = ys ++ zs ∧ Path p ys a ∧ Path (f a) zs b := by
  show Path (bind p f) xs b ↔ _
  -- The induction is on the first part; what is exchanged before it is done varies.
  induction p generalizing xs with
  | done a =>
    constructor
    · intro h
      exact ⟨[], xs, a, rfl, .done a, h⟩
    · rintro ⟨ys, zs, a', rfl, hp, hf⟩
      obtain ⟨rfl, rfl⟩ := path_done_iff.mp hp
      exact hf
  | act effect next ih =>
    rw [bind_act, path_act_iff]
    constructor
    · rintro ⟨answer, rest, rfl, h⟩
      obtain ⟨ys, zs, a, rfl, hp, hf⟩ := (ih answer).mp h
      exact ⟨⟨effect, answer⟩ :: ys, zs, a, rfl, .act hp, hf⟩
    · rintro ⟨ys, zs, a, rfl, hp, hf⟩
      obtain ⟨answer, rest, rfl, tail⟩ := path_act_iff.mp hp
      exact ⟨answer, rest ++ zs, rfl, (ih answer).mpr ⟨rest, zs, a, rfl, tail, hf⟩⟩

/-- A path of a program whose value is only read. -/
theorem path_bind_pure_iff {p : Program α} {read : α → β} {xs : List Exchange} {b : β} :
    Path (p >>= fun a => pure (read a)) xs b ↔ ∃ a, Path p xs a ∧ b = read a := by
  rw [path_bind_iff]
  constructor
  · rintro ⟨ys, zs, a, rfl, hp, hread⟩
    obtain ⟨rfl, rfl⟩ := path_pure_iff.mp hread
    rw [List.append_nil]
    exact ⟨a, hp, rfl⟩
  · rintro ⟨a, hp, rfl⟩
    exact ⟨xs, [], a, (List.append_nil xs).symm, hp, path_pure_iff.mpr ⟨rfl, rfl⟩⟩

theorem path_perform_iff {effect : Effect} {answer : effect.Answer} {xs : List Exchange} :
    Path (perform effect) xs answer ↔ xs = [⟨effect, answer⟩] := by
  rw [perform, path_act_iff]
  constructor
  · rintro ⟨answer', rest, rfl, h⟩
    obtain ⟨rfl, rfl⟩ := path_done_iff.mp h
    rfl
  · rintro rfl
    exact ⟨answer, [], rfl, .done answer⟩

theorem path_perform_bind_iff {effect : Effect} {f : effect.Answer → Program β}
    {xs : List Exchange} {b : β} :
    Path (perform effect >>= f) xs b ↔
      ∃ answer rest, xs = ⟨effect, answer⟩ :: rest ∧ Path (f answer) rest b := path_act_iff

/-- A path of an effect whose answer is only read. -/
theorem path_perform_pure_iff {effect : Effect} {f : effect.Answer → Program β}
    {read : effect.Answer → β} (hf : ∀ answer, f answer = pure (read answer))
    {xs : List Exchange} {b : β} :
    Path (perform effect >>= f) xs b ↔ ∃ answer, xs = [⟨effect, answer⟩] ∧ b = read answer := by
  rw [path_perform_bind_iff]
  constructor
  · rintro ⟨answer, rest, rfl, h⟩
    rw [hf] at h
    obtain ⟨rfl, rfl⟩ := path_pure_iff.mp h
    exact ⟨answer, rfl, rfl⟩
  · rintro ⟨answer, rfl, rfl⟩
    refine ⟨answer, [], rfl, ?_⟩
    rw [hf]
    exact path_pure_iff.mpr ⟨rfl, rfl⟩

/-! ## What is left after some exchanges -/

/-- What is left of a program after some exchanges. -/
inductive After : Program α → List Exchange → Program α → Prop where
  | start (p : Program α) : After p [] p
  | act {effect : Effect} {next : effect.Answer → Program α} {answer : effect.Answer}
      {rest : List Exchange} {q : Program α} (tail : After (next answer) rest q) :
      After (act effect next) (⟨effect, answer⟩ :: rest) q

theorem path_iff_after {p : Program α} {xs : List Exchange} {a : α} :
    Path p xs a ↔ After p xs (done a) := by
  constructor
  · intro h
    induction h with
    | done a => exact .start _
    | act tail ih => exact .act ih
  · intro h
    -- The end of the path is made a variable, so that the induction is on `After` with any end.
    generalize hq : done a = q at h
    induction h with
    | start p =>
      subst hq
      exact .done a
    | act tail ih => exact .act (ih hq)

theorem After.append {p q r : Program α} {xs ys : List Exchange} (h : After p xs q)
    (k : After q ys r) :
    After p (xs ++ ys) r := by
  induction h with
  | start p => exact k
  | act tail ih => exact .act (ih k)

theorem After.path {p q : Program α} {xs ys : List Exchange} {a : α} (h : After p xs q)
    (k : Path q ys a) : Path p (xs ++ ys) a :=
  path_iff_after.mpr (h.append (path_iff_after.mp k))

/-- Every program can be finished. -/
theorem exists_path (p : Program α) : ∃ xs a, Path p xs a := by
  -- Any answers will do, and there are some.
  induction p with
  | done a => exact ⟨[], a, .done a⟩
  | act effect next ih =>
    obtain ⟨answer⟩ : Nonempty effect.Answer := inferInstance
    obtain ⟨xs, a, h⟩ := ih answer
    exact ⟨_, a, .act h⟩

/-! ## What exchanges report -/

/-- The event that an exchange reports. -/
def Exchange.event? : Exchange → Option Event
  | ⟨.emit event, _⟩ => some event
  | _ => none

/-- The events that some exchanges report, in order. -/
def events (xs : List Exchange) : List Event := xs.filterMap Exchange.event?

@[simp] theorem events_append (xs ys : List Exchange) :
    events (xs ++ ys) = events xs ++ events ys :=
  List.filterMap_append

theorem events_of_isResolve {xs : List Exchange} (h : ∀ x ∈ xs, x.effect.IsResolve) :
    events xs = [] := by
  rw [events, List.filterMap_eq_nil_iff]
  rintro ⟨effect, answer⟩ hx
  have hr := h _ hx
  cases effect <;> first | rfl | exact hr.elim

/-! ## Programs with effects of some kind only -/

/-- Every effect on every path has a property. -/
def Only (P : Effect → Prop) (p : Program α) : Prop := ∀ xs a, Path p xs a → ∀ x ∈ xs, P x.effect

namespace Only

variable {P : Effect → Prop}

theorem pure' (a : α) : Only P (pure a : Program α) := by
  intro xs b h x hx
  obtain ⟨rfl, -⟩ := path_pure_iff.mp h
  simp at hx

theorem perform' {effect : Effect} (h : P effect) : Only P (perform effect) := by
  intro xs a hp x hx
  rw [path_perform_iff.mp hp, List.mem_singleton] at hx
  rw [hx]
  exact h

theorem bind' {p : Program α} {f : α → Program β} (hp : Only P p) (hf : ∀ a, Only P (f a)) :
    Only P (p >>= f) := by
  intro xs b h x hx
  obtain ⟨ys, zs, a, rfl, hy, hz⟩ := path_bind_iff.mp h
  rcases List.mem_append.mp hx with hx | hx
  · exact hp ys a hy x hx
  · exact hf a zs b hz x hx

theorem mapM' {f : α → Program β} (h : ∀ a, Only P (f a)) (l : List α) : Only P (l.mapM f) := by
  induction l with
  | nil => exact pure' []
  | cons a rest ih =>
    rw [List.mapM_cons]
    exact bind' (h a) fun b => bind' ih fun bs => pure' (b :: bs)

theorem foldlM' {f : β → α → Program β} (h : ∀ b a, Only P (f b a)) (l : List α) (b : β) :
    Only P (l.foldlM f b) := by
  induction l generalizing b with
  | nil => exact pure' b
  | cons a rest ih =>
    rw [List.foldlM_cons]
    exact bind' (h b a) ih

end Only

theorem only_expandArgs (args : List String) :
    Only Effect.IsResolve (expandArgs Program.resolve args) := by
  unfold expandArgs
  refine Only.mapM' (fun arg => ?_) args
  refine Only.bind' ?_ fun ev => Only.pure' _
  refine Only.foldlM' (fun ev form => ?_) Form.pipeline _
  refine Only.bind' ?_ fun next => Only.pure' _
  refine Only.bind' ?_ fun resolutions => Only.pure' _
  refine Only.mapM' (fun hit => ?_) _
  show Only Effect.IsResolve (perform (.resolve form hit.body))
  exact Only.perform' trivial

end Program

/-! ## Programs that run alone -/

theorem World.events_answer {σ : Type} (service : Service σ) (effect : Effect) (w : World σ) :
    (w.answer service effect).world.events
      = w.events ++ Program.events [⟨effect, (w.answer service effect).answer⟩] := by
  cases effect with
  | emit event => exact List.reverse_cons
  | now => exact (List.append_nil _).symm
  | resolve form body => exact (List.append_nil _).symm
  | submit request => exact (List.append_nil _).symm
  | query request => exact (List.append_nil _).symm
  | sleep delay => exact (List.append_nil _).symm

theorem Program.path_run {σ α : Type} (ledger : Ledger σ) (p : Program α) (w : World σ) :
    ∃ xs, Path p xs (p.run ledger w).1 ∧ (p.run ledger w).2.events = w.events ++ events xs := by
  induction p generalizing w with
  | done a => exact ⟨[], .done a, (List.append_nil _).symm⟩
  | act effect next ih =>
    have hanswer := w.events_answer ledger.alone effect
    obtain ⟨xs, hpath, hevents⟩ := ih (w.answer ledger.alone effect).answer
      ((w.answer ledger.alone effect).world.later (w.answer ledger.alone effect).took)
    refine ⟨_, .act hpath, ?_⟩
    calc (run ledger (act effect next) w).2.events
        = (w.answer ledger.alone effect).world.events ++ events xs := hevents
      _ = w.events ++ events (⟨effect, (w.answer ledger.alone effect).answer⟩ :: xs) := by
        rw [hanswer, List.append_assoc, ← events_append]
        rfl

end LedgerBench
