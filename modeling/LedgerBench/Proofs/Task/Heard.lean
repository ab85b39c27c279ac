import LedgerBench.Proofs.Retry.Law
import LedgerBench.Proofs.Run.Expansion
import LedgerBench.Proofs.Task.Replay
/-!
Calls that hear given replies.

A call goes by what the ledger says to it. Where the replies to all requests that it could ever send
are given, what it does is known. What is proved:
  1. `hearing`: to come to a value with so many of the replies is a judgement, so a loop of attempts
     comes to what the law of retries says (`runs_retry`).
  2. `eq_of_hears`: nothing else can be heard.
  3. `CallTask.exists_hears`, `CallTask.invocation_of_hears`: so an invocation that hears the
     replies has the attempts that they make, and there is one.
-/

namespace LedgerBench

open Program

/-! ## What is heard -/

/-- The ledger said the first of some replies, one to each request. The first one has number 1. -/
def Program.Hears (replies : Nat → Said) (xs : List Exchange) : Prop :=
  said xs = (List.range' 1 (said xs).length).map replies

theorem said_of_not_isTry {xs : List Exchange} (h : ∀ x ∈ xs, ¬ x.effect.IsTry) : said xs = [] := by
  rw [said, List.filterMap_eq_nil_iff]
  rintro ⟨effect, answer⟩ hx
  have hno := h _ hx
  cases effect <;> first | rfl | exact absurd trivial hno

/-- Coming to a value with some of the replies: those after the first `i`, up to the `j`-th. -/
def hearing (replies : Nat → Said) : Judgement Program Nat where
  runs p i a j := i ≤ j ∧ ∃ xs, Path p xs a ∧ said xs = (List.range' (i + 1) (j - i)).map replies
  runs_pure a i := ⟨Nat.le_refl i, [], path_pure_iff.mpr ⟨rfl, rfl⟩, by rw [Nat.sub_self]; rfl⟩
  runs_bind := by
    rintro α β x f i j k a b ⟨hij, xs, hx, hxs⟩ ⟨hjk, ys, hy, hys⟩
    refine ⟨Nat.le_trans hij hjk, xs ++ ys, path_bind_iff.mpr ⟨xs, ys, a, rfl, hx, hy⟩, ?_⟩
    have hstart : j + 1 = i + 1 + 1 * (j - i) := by omega
    have hlength : j - i + (k - j) = k - i := by omega
    rw [said_append, hxs, hys, ← List.map_append, hstart, List.range'_append, hlength]

namespace Hearing

variable {α : Type} {replies : Nat → Said}

/-- A program that sends no requests hears nothing. -/
theorem exists_runs {p : Program α} (h : Only (fun effect => ¬ effect.IsTry) p) (i : Nat) :
    ∃ a, (hearing replies).runs p i a i := by
  obtain ⟨xs, a, hpath⟩ := exists_path p
  refine ⟨a, Nat.le_refl i, xs, hpath, ?_⟩
  rw [said_of_not_isTry (h xs a hpath), Nat.sub_self]
  rfl

theorem exists_bind {β : Type} {x : Program α} {f : α → Program β} {a : α} {i j k : Nat}
    (hx : (hearing replies).runs x i a j) (hf : ∃ b, (hearing replies).runs (f a) j b k) :
    ∃ b, (hearing replies).runs (x >>= f) i b k := by
  obtain ⟨b, hb⟩ := hf
  exact ⟨b, (hearing replies).runs_bind hx hb⟩

theorem runs_perform (effect : Effect) (h : ¬ effect.IsTry) (answer : effect.Answer) (i : Nat) :
    (hearing replies).runs (Program.perform effect) i answer i := by
  refine ⟨Nat.le_refl i, [⟨effect, answer⟩], path_perform_iff.mpr rfl, ?_⟩
  rw [said_of_not_isTry (by simpa using h), Nat.sub_self]
  rfl

theorem runs_sleep (delay : Duration) (i : Nat) :
    (hearing replies).runs (Program.sleep delay) i () i := by
  refine ⟨Nat.le_refl i, [⟨.sleep delay, ()⟩], path_perform_iff.mpr rfl, ?_⟩
  rw [Nat.sub_self]
  rfl

theorem runs_submitAttempt (replies : Nat → Reply TxResponse) (request : Request) (i : Nat) :
    (hearing fun k => .inl (replies k)).runs (CallTask.submitAttempt request) i
      (replies (i + 1)).committed (i + 1) := by
  refine ⟨Nat.le_succ i, _, CallTask.path_submitAttempt_iff.mpr ⟨replies (i + 1), rfl, rfl⟩, ?_⟩
  rw [Nat.add_sub_cancel_left]
  rfl

theorem runs_queryAttempt (replies : Nat → Reply QueryResponse) (request : Request) (i : Nat) :
    (hearing fun k => .inr (replies k)).runs (CallTask.queryAttempt request) i
      (replies (i + 1)).delivered (i + 1) := by
  refine ⟨Nat.le_succ i, _, CallTask.path_queryAttempt_iff.mpr ⟨replies (i + 1), rfl, rfl⟩, ?_⟩
  rw [Nat.add_sub_cancel_left]
  rfl

/-- A loop whose attempts hear one reply each hears as many as there are attempts, and comes to what
the law says. -/
theorem runs_retry {policy : RetryPolicy} {results : Nat → Attempt α} {delays : Nat → Duration}
    {errors : Nat → CallError} {n : Nat} {result : Attempt α}
    (c : policy.Course results delays errors n result) {one : Program (Attempt α)}
    (hone : ∀ i, (hearing replies).runs one i (results (i + 1)) (i + 1)) :
    (hearing replies).runs (retry policy Program.sleep one) 0
      ⟨result, (List.range' 1 (n - 1)).map errors⟩ n := by
  have hloop := (hearing replies).runs_retry c hone fun i => runs_sleep _ (i + 1)
  rw [Nat.sub_add_cancel c.pos] at hloop
  exact hloop

theorem hears_of_runs {p : Program α} {a : α} {n : Nat} (h : (hearing replies).runs p 0 a n) :
    ∃ xs, Path p xs a ∧ Hears replies xs := by
  obtain ⟨-, xs, hpath, hsaid⟩ := h
  refine ⟨xs, hpath, ?_⟩
  rw [Hears, hsaid, List.length_map, List.length_range', Nat.sub_zero]

/-- A program that goes by what it hears comes to one thing with the replies. -/
theorem eq_of_hears {p : Program α} (halike : Alike p p) {a b : α} {n : Nat}
    (h : (hearing replies).runs p 0 a n) {xs : List Exchange} (hpath : Path p xs b)
    (hhears : Hears replies xs) : b = a ∧ said xs = (List.range' 1 n).map replies := by
  obtain ⟨-, ys, hys, hsaid⟩ := h
  have hprefix : ∀ m l, (List.range' 1 m).map replies <+: (List.range' 1 (m + l)).map replies := by
    intro m l
    rw [← List.range'_append, List.map_append]
    exact List.prefix_append _ _
  have hx : said xs <+: (List.range' 1 (n + (said xs).length)).map replies := by
    rw [Nat.add_comm, hhears, List.length_map, List.length_range']
    exact hprefix _ _
  have hy : said ys <+: (List.range' 1 (n + (said xs).length)).map replies := by
    rw [hsaid]
    exact hprefix _ _
  obtain ⟨rfl, hsame⟩ := halike xs ys b a _ hpath hys hx hy
  exact ⟨rfl, hsame.trans hsaid⟩

end Hearing

/-! ## Invocations -/

/-- The value of an attempt that succeeded. -/
def Attempt.value? {α : Type} : Attempt α → Option α
  | .ok value => some value
  | .failed _ | .panicked _ => none

/-- An invocation that returns with its attempts having come to `r`: the requests it sent, its
outcome and what the call knows afterwards agree on that. -/
structure CallTask.Returns (binding : Binding) (c : CallTask) (r : Retried Settled)
    (xs : List Exchange) (ending : Ending) (left : CallTask) (o : Outcome) : Prop where
  ending : ending = .returned
  requests : ∃ args, requests xs = List.replicate r.attempts (c.request binding args)
  events : events xs = [.started c.id c.spec.function, .completed o]
  attempts : o.attempts = r.attempts
  counted : left.attempts = r.attempts
  retried : o.retried = r.errors
  error : o.error = r.result.error?
  lastError : left.lastError = o.error
  transactionId : o.transactionId = r.result.value?.bind Settled.transactionId
  payload : o.payload = r.result.value?.bind Settled.payload

theorem Invocation.returns {binding : Binding} (i : Invocation binding) (h : ¬ i.Panicked) :
    i.call.Returns binding i.retried i.exchanges .returned i.after i.outcome := by
  have hresult : i.outcome.error = i.retried.result.error? ∧
      i.outcome.transactionId = i.retried.result.value?.bind Settled.transactionId ∧
      i.outcome.payload = i.retried.result.value?.bind Settled.payload := by
    unfold outcome Retried.reported
    cases hr : i.retried.result with
    | ok settled => exact ⟨rfl, rfl, rfl⟩
    | failed e => exact ⟨rfl, rfl, rfl⟩
    | panicked reason => exact absurd ⟨reason, hr⟩ h
  obtain ⟨herror, htransaction, hpayload⟩ := hresult
  exact ⟨rfl, ⟨i.args, i.sendsOne.requests⟩, i.events_eq, rfl, rfl, i.retried_of_not_panicked h,
    herror, rfl, htransaction, hpayload⟩

namespace CallTask

variable {binding : Binding} {replies : Nat → Said} {r : Retried Settled} {n : Nat}

theorem only_complete (c : CallTask) (retried : List CallError)
    (result : Except CallError Settled) :
    Only (fun effect => ¬ effect.IsTry) (c.complete retried result) := by
  unfold complete
  refine Only.bind' (Only.perform' fun h => h) fun now => ?_
  split
  · exact Only.pure' _
  · exact Only.bind' (Only.perform' fun h => h) fun _ => Only.pure' _

/-- Whatever the replies to a call are, there is an invocation that hears them. -/
theorem exists_hears (hruns : ∀ request, (hearing replies).runs (attempt binding request) 0 r n)
    (c : CallTask) :
    ∃ xs ending left, Path (c.invoke binding) xs (ending, left) ∧ Hears replies xs := by
  have hexpand : Only (fun effect => ¬ effect.IsTry) (expandArgs Program.resolve c.spec.args) :=
    fun xs a h x hx => (only_expandArgs _ xs a h x hx).not_isTry
  obtain ⟨args, hargs⟩ : ∃ args, (hearing replies).runs (expandArgs Program.resolve c.spec.args) 0
      args 0 := Hearing.exists_runs hexpand 0
  have hinvoke : ∃ done, (hearing replies).runs (c.invoke binding) 0 done n := by
    have hnow : (hearing replies).runs Program.now 0 Duration.zero 0 :=
      Hearing.runs_perform .now (fun h => h) _ 0
    have hstart : (hearing replies).runs (Program.emit (.started c.id c.spec.function)) 0 () 0 :=
      Hearing.runs_perform (.emit _) (fun h => h) () 0
    refine Hearing.exists_bind hnow (Hearing.exists_bind hstart
      (Hearing.exists_bind hargs (Hearing.exists_bind (hruns (c.request binding args)) ?_)))
    -- The report of the end sends nothing more.
    refine Hearing.exists_runs ?_ n
    cases r.result with
    | ok settled => exact Only.bind' (only_complete _ _ _) fun _ => Only.pure' _
    | failed e => exact Only.bind' (only_complete _ _ _) fun _ => Only.pure' _
    | panicked reason => exact Only.pure' _
  obtain ⟨⟨ending, left⟩, hinvoke⟩ := hinvoke
  obtain ⟨xs, hpath, hhears⟩ := Hearing.hears_of_runs hinvoke
  exact ⟨xs, ending, left, hpath, hhears⟩

/-- An invocation that hears the replies makes the attempts that they make. -/
theorem invocation_of_hears
    (hruns : ∀ request, (hearing replies).runs (attempt binding request) 0 r n) {c : CallTask}
    {xs : List Exchange} {ending : Ending} {left : CallTask}
    (h : Path (c.invoke binding) xs (ending, left)) (hhears : Hears replies xs) :
    said xs = (List.range' 1 n).map replies ∧ ∃ i : Invocation binding, i.call = c ∧ i.retried = r ∧
      (¬ i.Panicked ∧ xs = i.exchanges ∧ ending = .returned ∧ left = i.after ∨
        i.Panicked ∧ (∃ reason, ending = .panicked reason) ∧
          events xs = [.started c.id c.spec.function]) := by
  -- What the attempts of an invocation hear is what it hears.
  have hattempts : ∀ i : Invocation binding, said i.exchanges = said xs →
      i.retried = r ∧ said xs = (List.range' 1 n).map replies := by
    intro i hsaid
    have hattempting : said i.attempting = said xs := i.said_exchanges.symm.trans hsaid
    have hhears' : Hears replies i.attempting := by
      rw [Hears, hattempting]
      exact hhears
    obtain ⟨hretried, hall⟩ :=
      Hearing.eq_of_hears (alike_attempt binding _ _) (hruns _) i.attempted hhears'
    exact ⟨hretried, hattempting ▸ hall⟩
  rcases path_invoke h with ⟨i, hi, hno, rfl, hending, hleft⟩ | ⟨reason, hending, hevents, habandon⟩
  · obtain ⟨hretried, hall⟩ := hattempts i rfl
    exact ⟨hall, i, hi, hretried, .inl ⟨hno, rfl, hending, hleft⟩⟩
  · -- The invocation that panicked can be abandoned, and abandoning it sends nothing.
    obtain ⟨ys, later, hpath⟩ := exists_path (left.abandon reason)
    obtain ⟨i, hi, hpanicked, hxs, -⟩ := habandon ys later hpath
    have hys : said ys = [] := said_of_not_isTry (only_complete _ _ _ ys later hpath)
    obtain ⟨hretried, hall⟩ := hattempts i (by rw [← hxs, said_append, hys, List.append_nil])
    exact ⟨hall, i, hi, hretried, .inr ⟨hpanicked, ⟨reason, hending⟩, hevents⟩⟩

/-- An invocation whose attempts do not panic returns. -/
theorem returns_of_hears (hruns : ∀ request, (hearing replies).runs (attempt binding request) 0 r n)
    (hno : ∀ reason, r.result ≠ .panicked reason) {c : CallTask} {xs : List Exchange}
    {ending : Ending} {left : CallTask} (h : Path (c.invoke binding) xs (ending, left))
    (hhears : Hears replies xs) : ∃ o, c.Returns binding r xs ending left o := by
  obtain ⟨-, i, rfl, rfl, ⟨hreturned, rfl, rfl, rfl⟩ | ⟨⟨reason, hpanicked⟩, -⟩⟩ :=
    invocation_of_hears hruns h hhears
  · exact ⟨i.outcome, i.returns hreturned⟩
  · exact absurd hpanicked (hno reason)

/-- An invocation whose attempts panic sends what they send, and reports no outcome. -/
theorem panics_of_runs (hruns : ∀ request, (hearing replies).runs (attempt binding request) 0 r n)
    {reason : String} (hr : r.result = .panicked reason) (c : CallTask) :
    ∃ xs reason left, Path (c.invoke binding) xs (.panicked reason, left) ∧ Hears replies xs ∧
      (said xs).length = n ∧
      events xs = [.started c.id c.spec.function] := by
  obtain ⟨xs, ending, left, hpath, hhears⟩ := exists_hears hruns c
  obtain ⟨hsaid, i, -, rfl, ⟨hreturned, -⟩ | ⟨-, ⟨reason, rfl⟩, hevents⟩⟩ :=
    invocation_of_hears hruns hpath hhears
  · exact absurd ⟨reason, hr⟩ hreturned
  · exact ⟨xs, reason, left, hpath, hhears, by rw [hsaid, List.length_map, List.length_range'],
      hevents⟩

end CallTask

end LedgerBench
