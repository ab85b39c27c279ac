import LedgerBench.Proofs.Run.Sequential
/-!
What arguments expand to.

The arguments of a call are expanded before its first attempt, and nothing that a ledger answers
changes what expressions read. So the scope that a group starts in settles what its calls send,
however often each of them is tried. What is proved:
  1. `Client.run_expandArgs`: expanding arguments is a matter of the scope alone.
  2. `Invocation.expandArgs_of_gets`: an invocation leaves the scope where its expansion left it,
     and so do many of them (`expandEach_of_gets`).
  3. `Invocation.sendsOne`: an invocation expands its arguments in one place, and then sends one and
     the same request in each attempt.
  4. `Task.same_args_of_invoke`: the calls of a group have the same arguments with any two ledgers.
-/

namespace LedgerBench

open Program

/-! ## Expansions and scopes -/

/-- Expands the arguments of some calls, one call after the other. -/
def Scope.expandEach (scope : Scope) : List (List String) → List (List String) × Scope
  | [] => ([], scope)
  | args :: rest =>
    let (values, mid) := scope.expandArgs args
    let (more, later) := mid.expandEach rest
    (values :: more, later)

namespace Client

variable {σ : Type}

/-- A computation on a scope is one on the scope of a client. -/
def onScope : Carrying (StateM Scope) (StateM (Client σ)) where
  apply x := fun client =>
    let (a, scope) := x client.scope
    (a, { client with scope })
  apply_pure _ := rfl
  apply_bind _ _ := rfl

theorem run_expandArgs (client : Client σ) (args : List String) :
    (LedgerBench.expandArgs resolve args).run client =
      ((client.scope.expandArgs args).1,
          { client with scope := (client.scope.expandArgs args).2 }) :=
  (congrFun (onScope.apply_expandArgs Scope.resolveM args) client).symm

variable {service : Service σ} {client later : Client σ} {xs : List Exchange}

/-- Attempts leave the scope alone. -/
theorem Gets.scope_of_isTry (h : Gets service client xs later) (htries : ∀ x ∈ xs, x.effect.IsTry) :
    later.scope = client.scope := by
  induction h with
  | nil client => rfl
  | now time tail ih => exact ((List.forall_mem_cons.mp htries).1).elim
  | @answered client mid later effect reply rest hreply tail ih =>
    obtain ⟨hfirst, hrest⟩ := List.forall_mem_cons.mp htries
    rw [ih hrest]
    cases effect with
    | submit request =>
      obtain ⟨-, rfl⟩ := Prod.mk.inj hreply
      rfl
    | query request =>
      obtain ⟨-, rfl⟩ := Prod.mk.inj hreply
      rfl
    | sleep delay =>
      obtain ⟨-, rfl⟩ := Prod.mk.inj hreply
      rfl
    | now => exact hfirst.elim
    | resolve form body => exact hfirst.elim
    | emit event => exact hfirst.elim

end Client

namespace Invocation

variable {σ : Type} {service : Service σ} {binding : Binding} {client later : Client σ}

/-- An invocation has the arguments that the scope gives, and leaves the scope as the expansion
does. -/
theorem expandArgs_of_gets (i : Invocation binding)
    (h : Client.Gets service client i.exchanges later) :
    client.scope.expandArgs i.call.spec.args = (i.args, later.scope) := by
  obtain ⟨mid, hargs, hattempting⟩ := i.expand_of_gets h
  rw [Client.run_expandArgs] at hargs
  obtain ⟨hvalues, hmid⟩ := Prod.mk.inj hargs
  rw [hattempting.scope_of_isTry (CallTask.tries_of_attempt i.attempted).1, ← hmid, ← hvalues]

/-- Invocations one after the other have the arguments that the scope gives to all of them. -/
theorem expandEach_of_gets {is : List (Invocation binding)}
    (h : Client.Gets service client (is.flatMap exchanges) later) :
    client.scope.expandEach (is.map fun i => i.call.spec.args) = (is.map args, later.scope) := by
  induction is generalizing client with
  | nil =>
    rw [h.eq_of_nil]
    rfl
  | cons i rest ih =>
    rw [List.flatMap_cons] at h
    obtain ⟨mid, hfirst, hrest⟩ := h.of_append
    rw [List.map_cons, Scope.expandEach, i.expandArgs_of_gets hfirst]
    dsimp only
    rw [ih hrest]
    rfl

end Invocation

/-! ## Requests of a call -/

namespace Program

/-- The requests that some exchanges send, in order. -/
def requests (xs : List Exchange) : List Request := xs.filterMap Exchange.request?

@[simp] theorem requests_append (xs ys : List Exchange) :
    requests (xs ++ ys) = requests xs ++ requests ys :=
  List.filterMap_append

/-- As many requests are sent as there are attempts. -/
theorem length_requests (xs : List Exchange) : (requests xs).length = (tries xs).length := by
  rw [requests, tries, List.length_filterMap_eq_countP, List.length_filterMap_eq_countP]
  refine List.countP_congr fun x _ => ?_
  obtain ⟨effect, answer⟩ := x
  cases effect <;> exact Iff.rfl

theorem Only.retryFrom' {α : Type} {P : Effect → Prop} {one : Program (Attempt α)}
    {after : Nat → CallError → AfterFailure} (hone : Only P one)
    (hsleep : ∀ delay, P (.sleep delay)) (errors : List CallError) (left : Nat) :
    Only P (retryFrom after sleep one errors left) :=
  @retryFrom_rel (fun p _ => Only P p) Only.pure' Only.bind'
    (fun delay => Only.perform' (hsleep delay)) α one one hone after errors left

end Program

/-- Whether an effect is an attempt with a request or the wait before one. -/
def Effect.Tries (request : Request) : Effect → Prop
  | .submit sent | .query sent => sent = request
  | .sleep _ => True
  | _ => False

namespace CallTask

variable {binding : Binding} {request : Request} {xs : List Exchange} {r : Retried Settled}

theorem only_attempt (binding : Binding) (request : Request) :
    Only (Effect.Tries request) (attempt binding request) := by
  have hsubmit : Only (Effect.Tries request) (submitAttempt request) := by
    refine Only.bind' (Only.perform' rfl) fun reply => ?_
    cases reply <;> exact Only.pure' _
  have hquery : Only (Effect.Tries request) (queryAttempt request) := by
    refine Only.bind' (Only.perform' rfl) fun reply => ?_
    cases reply <;> exact Only.pure' _
  unfold attempt
  cases binding.mode with
  | submit =>
    exact Only.bind' (Only.retryFrom' hsubmit (fun _ => trivial) [] _) fun _ => Only.pure' _
  | query =>
    show Only _ (query binding.policy binding.handlers request)
    rw [query_eq]
    exact Only.bind' (Only.retryFrom' hquery (fun _ => trivial) [] _) fun _ => Only.pure' _

/-- The attempts of a call send one request, as often as there are attempts. -/
theorem requests_of_attempt (h : Path (attempt binding request) xs r) :
    requests xs = List.replicate r.attempts request := by
  rw [List.eq_replicate_iff]
  constructor
  · obtain ⟨-, e, htries⟩ := tries_of_attempt h
    rw [length_requests, htries, List.length_append, List.length_map]
    rfl
  · intro sent hsent
    obtain ⟨⟨effect, answer⟩, hx, hrequest⟩ := List.mem_filterMap.mp hsent
    have htries := only_attempt binding request xs r h _ hx
    cases effect with
    | submit other => exact (Option.some.inj hrequest).symm.trans htries
    | query other => exact (Option.some.inj hrequest).symm.trans htries
    | now => cases hrequest
    | resolve form body => cases hrequest
    | sleep delay => cases hrequest
    | emit event => cases hrequest

end CallTask

/-- What a call sends: its arguments are expanded in one place, before the first attempt, and every
attempt sends the same request. -/
structure Invocation.SendsOne {binding : Binding} (i : Invocation binding) : Prop where
  requests : requests i.exchanges = List.replicate i.outcome.attempts
    (i.call.request binding i.args)
  expansion : ∃ before after, i.exchanges = before ++ i.expansion ++ after ∧
    Program.requests before = [] ∧
    ∀ x ∈ before ++ after, ¬ x.effect.IsResolve

namespace Invocation

variable {binding : Binding} (i : Invocation binding)

theorem requests_exchanges : Program.requests i.exchanges =
    List.replicate i.outcome.attempts (i.call.request binding i.args) := by
  have hattempting : Program.requests i.exchanges = Program.requests i.attempting :=
    i.filterMap_exchanges fun ⟨effect, _⟩ h => by cases effect <;>
      first | rfl | exact absurd trivial h
  exact hattempting.trans (CallTask.requests_of_attempt i.attempted)

theorem sendsOne : i.SendsOne where
  requests := i.requests_exchanges
  expansion := by
    refine ⟨[⟨.now, i.begunAt⟩, ⟨.emit (.started i.call.id i.call.spec.function), ()⟩],
      i.attempting ++ CallTask.reporting i.endedAt i.outcome, ?_, rfl, ?_⟩
    · simp only [exchanges, making, List.cons_append, List.nil_append, List.append_assoc]
    · have htries := (CallTask.tries_of_attempt i.attempted).1
      rintro ⟨effect, answer⟩ hx hresolve
      cases effect with
      | resolve form body =>
        rcases List.mem_append.mp hx with hx | hx
        · simp at hx
        · rcases List.mem_append.mp hx with hx | hx
          · exact htries _ hx
          · simp [CallTask.reporting] at hx
      | now => exact hresolve
      | submit request => exact hresolve
      | query request => exact hresolve
      | sleep delay => exact hresolve
      | emit event => exact hresolve

end Invocation

/-! ## Programs that run alone -/

namespace Program

variable {σ α : Type}

/-- What a program exchanges that runs alone in a world. -/
def exchanged (ledger : Ledger σ) : Program α → World σ → List Exchange
  | .done _, _ => []
  | .act effect next, w =>
    let a := w.answer ledger.alone effect
    ⟨effect, a.answer⟩ :: exchanged ledger (next a.answer) (a.world.later a.took)

theorem path_exchanged (ledger : Ledger σ) (p : Program α) (w : World σ) :
    Path p (p.exchanged ledger w) (p.run ledger w).1 := by
  induction p generalizing w with
  | done a => exact .done a
  | act effect next ih => exact .act (ih _ _)

theorem gets_exchanged (ledger : Ledger σ) (p : Program α) (w : World σ) (sent : List Request) :
    Client.Gets ledger.alone (w.client sent) (p.exchanged ledger w)
      ((p.run ledger w).2.client (sent ++ requests (p.exchanged ledger w))) := by
  induction p generalizing w sent with
  | done a => exact World.gets_unsent (.nil _)
  | act effect next ih =>
    have hfirst := w.gets_answer ledger.alone 0 effect sent
    have hrest := ih (w.answer ledger.alone effect).answer
      ((w.answer ledger.alone effect).world.later (w.answer ledger.alone effect).took)
      (sent ++ requests [⟨effect, (w.answer ledger.alone effect).answer⟩])
    rw [List.append_assoc, ← requests_append] at hrest
    exact hfirst.append hrest

end Program

/-! ## Groups -/

namespace Task

variable {σ τ : Type} {binding : Binding}

/-- A group that is run alone invokes its calls in order. They have the arguments that the scope
gives, and leave the scope as their expansions do. -/
theorem expandEach_of_invoke (binding : Binding) (id : TaskId) (calls : List CallTask)
    (ledger : Ledger σ) (w : World σ) :
    ∃ is : List (Invocation binding), is.map Invocation.call = calls ∧
      ((group id false (calls.map .call)).invoke binding).exchanged ledger w =
        is.flatMap Invocation.exchanges ++ [groupReport id is] ∧
      w.scope.expandEach (calls.map fun c => c.spec.args) =
        (is.map Invocation.args,
            (((group id false (calls.map .call)).invoke binding).run ledger w).2.scope) := by
  have hpath := path_exchanged ledger ((group id false (calls.map .call)).invoke binding) w
  obtain ⟨ys, members, hmembers, hxs, -, -⟩ := path_invoke_members hpath
  obtain ⟨is, rfl, rfl, rfl⟩ := path_invokeAll_calls hmembers
  have hgets :=
    gets_exchanged ledger ((group id false ((is.map Invocation.call).map .call)).invoke binding) w
      []
  rw [hxs] at hgets
  obtain ⟨mid, hcalls, hreport⟩ := hgets.of_append
  obtain rfl := hreport.of_emit.eq_of_nil
  have hargs := Invocation.expandEach_of_gets hcalls
  refine ⟨is, rfl, hxs, ?_⟩
  rw [List.map_map]
  exact hargs

/-- The calls of a group have the same arguments with any two ledgers, and the scope after the group
is the same. With either ledger each call expands its arguments once and sends the same request in
all its attempts. -/
theorem same_args_of_invoke (binding : Binding) (id : TaskId) (calls : List CallTask)
    (first : Ledger σ) (second : Ledger τ) {w : World σ} {v : World τ}
    (hscope : w.scope = v.scope) :
    ∃ is js : List (Invocation binding),
      is.map Invocation.call = calls ∧ js.map Invocation.call = calls ∧
      ((group id false (calls.map .call)).invoke binding).exchanged first w =
        is.flatMap Invocation.exchanges ++ [groupReport id is] ∧
      ((group id false (calls.map .call)).invoke binding).exchanged second v =
        js.flatMap Invocation.exchanges ++ [groupReport id js] ∧
      is.map Invocation.args = js.map Invocation.args ∧
      (((group id false (calls.map .call)).invoke binding).run first w).2.scope =
        (((group id false (calls.map .call)).invoke binding).run second v).2.scope ∧
      (∀ i ∈ is, i.SendsOne) ∧ ∀ j ∈ js, j.SendsOne := by
  obtain ⟨is, hcalls, hxs, hexpand⟩ := expandEach_of_invoke binding id calls first w
  obtain ⟨js, hcalls', hys, hexpand'⟩ := expandEach_of_invoke binding id calls second v
  rw [hscope, hexpand'] at hexpand
  obtain ⟨hargs, hlater⟩ := Prod.mk.inj hexpand
  exact ⟨is, js, hcalls, hcalls', hxs, hys, hargs.symm, hlater.symm, fun i _ => i.sendsOne,
    fun j _ => j.sendsOne⟩

end Task

/-! ### A retry and a panic -/

namespace Bench

/-- Two calls, of which the second reads what the first one stored and draws a number of its own. -/
def handing : List CallSpec :=
  [{ function := "put", args := ["$set(id,k$seq())"] },
    { function := "get", args := ["$\x7bid\x7d", "$seq()"] }]

def handingCalls : List CallTask := groupCalls fresh.ids 1 handing

def handingId : TaskId := ⟨fresh.ids 3⟩

def handingGroup : Program (Ending × Task) :=
  (Task.group handingId false (handingCalls.map .call)).invoke (single.binding .submit)

def idle : World Nat where
  scope := fresh.scope
  ledger := 0

/-- Both ledgers panic, on the first call and on the second. The one that does not respond at first
gets the first request once more, and nothing else differs. -/
theorem same_args_of_invoke_handing :
    ∃ is js : List (Invocation (single.binding .submit)),
      handingGroup.exchanged recovering idle = is.flatMap Invocation.exchanges ++
        [Task.groupReport handingId is] ∧
      handingGroup.exchanged faltering idle = js.flatMap Invocation.exchanges ++
        [Task.groupReport handingId js] ∧
      is.map Invocation.args = js.map Invocation.args ∧
      (handingGroup.run recovering idle).2.scope = (handingGroup.run faltering idle).2.scope ∧
      (requests (handingGroup.exchanged recovering idle)).map Request.args = [["k1"], ["k1", "2"]] ∧
      (requests (handingGroup.exchanged faltering idle)).map Request.args =
        [["k1"], ["k1"], ["k1", "2"]] := by
  obtain ⟨is, js, -, -, hxs, hys, hargs, hscope, -, -⟩ :=
    Task.same_args_of_invoke (single.binding .submit) handingId handingCalls recovering faltering
      (w := idle) (v := idle) rfl
  exact ⟨is, js, hxs, hys, hargs, hscope, by decide +kernel, by decide +kernel⟩

end Bench

end LedgerBench
