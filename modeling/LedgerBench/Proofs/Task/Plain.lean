import LedgerBench.Proofs.Task.Group
import LedgerBench.Proofs.Task.Interpret
/-!
Calls in plain steps.

A call that nothing else runs beside needs no clock and no events: it expands its arguments and
makes attempts until it is settled. `Client.call` says this directly, as a computation that changes
a scope and the state of a ledger and notes the requests it sends. What is proved:
  1. `Client.interpret_attempt`: the attempts of a client are those of the program of a call, with
     each effect answered at once.
  2. `Gets.interpret`: a path with the answers that a client gets is what the client does, whatever
     else happened meanwhile.
  3. `Invocation.run_call`: so an invocation with these answers is a plain call.
-/

namespace LedgerBench

open Program

/-- What is passed on from one call to the next: what expressions read and change, the ledger's
state, and the requests sent so far. -/
structure Client (σ : Type) where
  scope : Scope
  ledger : σ
  requests : List Request := []

/-- A call whose attempts have ended. -/
structure Ended where
  call : CallTask
  retried : Retried Settled

namespace Client

variable {σ : Type}

def resolve (form : Form) (body : List Char) : StateM (Client σ) Resolution := fun client =>
  let (resolution, scope) := client.scope.resolve form body
  (resolution, { client with scope })

def send {α : Type} (serve : Request → σ → Served σ α) (request : Request) :
    StateM (Client σ) (Reply α) :=
  fun client =>
  let served := serve request client.ledger
  (served.reply, { client with ledger := served.next, requests := client.requests ++ [request] })

/-- Attempts with one request until it is settled. No time passes between them. -/
def attempt (service : Service σ) (binding : Binding) (request : Request) :
    StateM (Client σ) (Retried Settled) :=
  match binding.mode with
  | .submit => do
    let r ← retry binding.policy (fun _ => pure ())
      (Reply.committed <$> send service.submit request)
    pure (r.andThen fun transactionId => .ok { transactionId := some transactionId })
  | .query => do
    let r ← retry binding.policy (fun _ => pure ()) (Reply.delivered <$> send service.query request)
    pure (r.andThen (CallTask.judged binding.handlers))

/-- Expands the arguments of a call once, and then attempts it until it is settled. -/
def call (service : Service σ) (binding : Binding) (c : CallTask) : StateM (Client σ) Ended := do
  let args ← expandArgs resolve c.spec.args
  let retried ← attempt service binding (c.request binding args)
  pure { call := c, retried }

theorem run_bind_of_run {α β : Type} {x : StateM (Client σ) α} {a : α} {client mid : Client σ}
    (h : x.run client = (a, mid)) (f : α → StateM (Client σ) β) :
    (x >>= f).run client = (f a).run mid := by
  rw [StateT.run_bind, h]
  rfl

/-! ## Clients and programs -/

/-- What a client gets for an effect. It knows no time, and nobody listens to it. -/
def answer (service : Service σ) : (effect : Effect) → StateM (Client σ) effect.Answer
  | .now => pure Duration.zero
  | .resolve form body => resolve form body
  | .submit request => send service.submit request
  | .query request => send service.query request
  | .sleep _ => pure ()
  | .emit _ => pure ()

theorem interpret_expandArgs (service : Service σ) (args : List String) :
    (expandArgs Program.resolve args).interpret (answer service) = expandArgs resolve args := by
  have hresolve :
      ∀ form body, (Program.resolve form body).interpret (answer service) = resolve form body :=
    fun form body => interpret_perform (answer service) (.resolve form body)
  have hcarried := (carrying (answer service)).apply_expandArgs Program.resolve args
  simpa only [carrying, hresolve] using hcarried

theorem interpret_sleep (service : Service σ) (delay : Duration) :
    (Program.sleep delay).interpret (answer service) = pure () :=
  interpret_perform (answer service) (.sleep delay)

theorem interpret_submitAttempt (service : Service σ) (request : Request) :
    (CallTask.submitAttempt request).interpret (answer service) =
      Reply.committed <$> send service.submit request := by
  unfold CallTask.submitAttempt
  rw [interpret_bind, interpret_perform, map_eq_pure_bind]
  refine bind_congr fun reply => ?_
  cases reply <;> rfl

theorem interpret_queryAttempt (service : Service σ) (request : Request) :
    (CallTask.queryAttempt request).interpret (answer service) =
      Reply.delivered <$> send service.query request := by
  unfold CallTask.queryAttempt
  rw [interpret_bind, interpret_perform, map_eq_pure_bind]
  refine bind_congr fun reply => ?_
  cases reply <;> rfl

/-- The attempts of a client are those of the program of a call. -/
theorem interpret_attempt (service : Service σ) (binding : Binding) (request : Request) :
    (CallTask.attempt binding request).interpret (answer service) =
      attempt service binding request := by
  have hretry : ∀ {α : Type} (one : Program (Attempt α)),
      (retry binding.policy Program.sleep one).interpret (answer service) =
      retry binding.policy (fun _ => pure ()) (one.interpret (answer service)) := by
    intro α one
    have hcarried := (carrying (answer service)).apply_retry binding.policy Program.sleep one
    simpa only [carrying, interpret_sleep] using hcarried
  unfold CallTask.attempt attempt
  cases binding.mode with
  | submit =>
    show ((retry binding.policy Program.sleep (CallTask.submitAttempt request)) >>= _).interpret
      (answer service) = _
    rw [interpret_bind, hretry, interpret_submitAttempt]
    refine bind_congr fun r => ?_
    cases r with
    | mk result errors => cases result <;> rfl
  | query =>
    show (CallTask.query _ _ _).interpret (answer service) = _
    rw [CallTask.query_eq, interpret_bind, hretry, interpret_queryAttempt]
    exact bind_congr fun r => rfl

/-! ## Answers that a client gets -/

variable {service : Service σ} {client mid later : Client σ} {xs ys : List Exchange}

/-- A client that has the effects of some exchanges gets the answers in them, whatever time was
read. -/
inductive Gets (service : Service σ) : Client σ → List Exchange → Client σ → Prop where
  | nil (client : Client σ) : Gets service client [] client
  | now {client later : Client σ} {rest : List Exchange} (time : Duration)
    (tail : Gets service client rest later) :
      Gets service client (⟨.now, time⟩ :: rest) later
  | answered {client mid later : Client σ} {effect : Effect} {reply : effect.Answer}
    {rest : List Exchange}
      (h : (answer service effect).run client = (reply, mid)) (tail : Gets service mid rest later) :
      Gets service client (⟨effect, reply⟩ :: rest) later

namespace Gets

theorem append (h : Gets service client xs mid) (k : Gets service mid ys later) :
    Gets service client (xs ++ ys) later := by
  induction h with
  | nil client => exact k
  | now time tail ih => exact .now time (ih k)
  | answered hreply tail ih => exact .answered hreply (ih k)

theorem of_append (h : Gets service client (xs ++ ys) later) :
    ∃ mid, Gets service client xs mid ∧ Gets service mid ys later := by
  induction xs generalizing client with
  | nil => exact ⟨client, .nil client, h⟩
  | cons x rest ih =>
    cases h with
    | now time tail =>
      obtain ⟨mid, hrest, hys⟩ := ih tail
      exact ⟨mid, .now time hrest, hys⟩
    | answered hreply tail =>
      obtain ⟨mid, hrest, hys⟩ := ih tail
      exact ⟨mid, .answered hreply hrest, hys⟩

theorem of_now {time : Duration} (h : Gets service client (⟨.now, time⟩ :: xs) later) :
    Gets service client xs later := by
  cases h with
  | now time tail => exact tail
  | answered hreply tail =>
    obtain ⟨-, rfl⟩ := Prod.mk.inj hreply
    exact tail

theorem of_emit {event : Event} {reply : Unit}
    (h : Gets service client (⟨.emit event, reply⟩ :: xs) later) :
    Gets service client xs later := by
  cases h with
  | answered hreply tail =>
    obtain ⟨-, rfl⟩ := Prod.mk.inj hreply
    exact tail

theorem eq_of_nil (h : Gets service client [] later) : later = client := by
  cases h
  rfl

/-- A path with the answers that a client gets is what the client does. -/
theorem interpret {α : Type} {p : Program α} {a : α} (hpath : Path p xs a)
    (htimeless : ∀ x ∈ xs, x.effect ≠ .now) (h : Gets service client xs later) :
    (p.interpret (Client.answer service)).run client = (a, later) := by
  induction hpath generalizing client with
  | done a =>
    rw [h.eq_of_nil]
    rfl
  | act tail ih =>
    obtain ⟨hfirst, hrest⟩ := List.forall_mem_cons.mp htimeless
    cases h with
    | now time htail => exact absurd rfl hfirst
    | answered hreply htail =>
      rw [Program.interpret, run_bind_of_run hreply]
      exact ih hrest htail

end Gets

end Client

/-! ## Invocations and clients -/

namespace Invocation

variable {σ : Type} {service : Service σ} {binding : Binding} {client later : Client σ}

def ended (i : Invocation binding) : Ended where
  call := i.call
  retried := i.retried

/-- The answers that a client gets for an invocation are those of its expansion and then those of
its attempts. -/
theorem expand_of_gets (i : Invocation binding) (h : Client.Gets service client i.exchanges later) :
    ∃ mid, (expandArgs Client.resolve i.call.spec.args).run client = (i.args, mid) ∧
      Client.Gets service mid i.attempting later := by
  obtain ⟨made, hmaking, hreport⟩ := h.of_append
  obtain ⟨mid, hexpansion, hattempting⟩ := hmaking.of_now.of_emit.of_append
  obtain rfl := hreport.of_now.of_emit.eq_of_nil
  have hresolves : ∀ x ∈ i.expansion, x.effect ≠ .now := by
    intro x hx hnow
    have hr := i.isResolve_expansion x hx
    rw [hnow] at hr
    exact hr
  have hargs := hexpansion.interpret i.expanded hresolves
  rw [Client.interpret_expandArgs] at hargs
  exact ⟨mid, hargs, hattempting⟩

/-- An invocation with the answers that a client gets is a plain call. -/
theorem run_call (i : Invocation binding) (h : Client.Gets service client i.exchanges later) :
    (Client.call service binding i.call).run client = (i.ended, later) := by
  obtain ⟨mid, hargs, hattempting⟩ := i.expand_of_gets h
  have htries : ∀ x ∈ i.attempting, x.effect ≠ .now := by
    intro x hx hnow
    have ht := (CallTask.tries_of_attempt i.attempted).1 x hx
    rw [hnow] at ht
    exact ht
  have hretried := hattempting.interpret i.attempted htries
  rw [Client.interpret_attempt] at hretried
  unfold Client.call
  rw [Client.run_bind_of_run hargs, Client.run_bind_of_run hretried]
  rfl

theorem run_calls {is : List (Invocation binding)}
    (h : Client.Gets service client (is.flatMap exchanges) later) :
    ((is.map call).mapM (Client.call service binding)).run client = (is.map ended, later) := by
  induction is generalizing client with
  | nil =>
    rw [h.eq_of_nil]
    rfl
  | cons i rest ih =>
    rw [List.flatMap_cons] at h
    obtain ⟨mid, hfirst, hrest⟩ := h.of_append
    rw [List.map_cons, List.mapM_cons, Client.run_bind_of_run (i.run_call hfirst),
      Client.run_bind_of_run (ih hrest)]
    rfl

end Invocation

end LedgerBench
