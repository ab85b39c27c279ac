import LedgerBench.Proofs.Task.Path
import LedgerBench.Task.Call
/-!
The exchanges of a call's attempts.

An attempt is one exchange with the ledger, and `Exchange.tried?` reads off what it came to without
looking at the loop that made it. What is proved:
  1. `path_retry`: a retry loop ends with an attempt, and the errors it keeps are those of all the
     attempts before that one, in order.
  2. `tries_of_attempt`: the same of either mode, the judgement of a delivered query included.
  3. `delivered_of_query`: a query that succeeds was delivered by its last exchange, and its
     handlers accepted that response.
  4. `panicked_of_attempt`: where the ledger panics the attempts end, with what it said.
-/

namespace LedgerBench

/-! ## Reading exchanges -/

/-- The error an attempt failed with; none where it succeeded or panicked. -/
def Attempt.error? {α : Type} : Attempt α → Option CallError
  | .failed e => some e
  | .ok _ | .panicked _ => none

/-- The attempt that goes on with its value. -/
def Attempt.andThen {α β : Type} (f : α → Attempt β) : Attempt α → Attempt β
  | .ok value => f value
  | .failed e => .failed e
  | .panicked reason => .panicked reason

def Retried.andThen {α β : Type} (f : α → Attempt β) (r : Retried α) : Retried β where
  result := r.result.andThen f
  errors := r.errors

namespace Reply

/-- The attempt that the reply to a submission makes. -/
def committed : Reply TxResponse → Attempt String
  | .answered response => CallTask.classify response
  | .failed e => .failed e.toCallError
  | .panicked reason => .panicked reason

/-- The attempt that the reply to a query makes. -/
def delivered : Reply QueryResponse → Attempt QueryResponse
  | .answered response => .ok response
  | .failed e => .failed e.toCallError
  | .panicked reason => .panicked reason

/-- What the ledger said, where it panicked. -/
def panic? {α : Type} : Reply α → Option String
  | .panicked reason => some reason
  | .answered _ | .failed _ => none

theorem panic?_eq_some_iff {α : Type} {reply : Reply α} {reason : String} :
    reply.panic? = some reason ↔ reply = .panicked reason := by
  cases reply <;> simp [panic?]

end Reply

namespace Program.Exchange

/-- For an attempt at a call, the error it failed with, if it failed. -/
def tried? : Exchange → Option (Option CallError)
  | ⟨.submit _, reply⟩ => some (Reply.committed reply).error?
  | ⟨.query _, reply⟩ => some (Reply.delivered reply).error?
  | _ => none

/-- For an attempt at a call, what the ledger said if it panicked. -/
def panic? : Exchange → Option String
  | ⟨.submit _, reply⟩ => Reply.panic? reply
  | ⟨.query _, reply⟩ => Reply.panic? reply
  | _ => none

end Program.Exchange

/-- Whether an effect is an attempt or the wait before one. -/
def Effect.IsTry : Effect → Prop
  | .submit _ | .query _ | .sleep _ => True
  | _ => False

theorem Effect.IsResolve.not_isTry {effect : Effect} (h : effect.IsResolve) : ¬ effect.IsTry := by
  cases effect <;> first | exact id | exact h.elim

namespace Program

/-- The attempts among some exchanges, in order: for each, the error it failed with, if it
failed. -/
def tries (xs : List Exchange) : List (Option CallError) := xs.filterMap Exchange.tried?

@[simp] theorem tries_append (xs ys : List Exchange) : tries (xs ++ ys) = tries xs ++ tries ys :=
  List.filterMap_append

theorem events_of_isTry {xs : List Exchange} (h : ∀ x ∈ xs, x.effect.IsTry) : events xs = [] := by
  rw [events, List.filterMap_eq_nil_iff]
  rintro ⟨effect, answer⟩ hx
  have ht := h _ hx
  cases effect <;> first | rfl | exact ht.elim

end Program

open Program

/-! ## One attempt -/

namespace CallTask

theorem path_submitAttempt_iff {request : Request} {xs : List Exchange} {a : Attempt String} :
    Path (submitAttempt request) xs a ↔ ∃ reply, xs = [⟨.submit request, reply⟩] ∧
      a = reply.committed := by
  refine path_perform_pure_iff ?_
  intro reply
  cases reply <;> rfl

theorem path_queryAttempt_iff {request : Request} {xs : List Exchange} {a : Attempt QueryResponse} :
    Path (queryAttempt request) xs a ↔ ∃ reply, xs = [⟨.query request, reply⟩] ∧
      a = reply.delivered := by
  refine path_perform_pure_iff ?_
  intro reply
  cases reply <;> rfl

end CallTask

/-! ## Loops of attempts -/

/-- What relates two attempts relates the loops of them, if it is kept by sequences and holds of
what ends a loop and of a wait. -/
theorem retryFrom_rel {R : {β : Type} → Program β → Program β → Prop}
    (hpure : ∀ {β : Type} (b : β), R (pure b) (pure b))
    (hbind : ∀ {β γ : Type} {p q : Program β} {f g : β → Program γ}, R p q → (∀ b, R (f b) (g b)) →
      R (p >>= f) (q >>= g)) (hsleep : ∀ delay, R (sleep delay) (sleep delay)) {α : Type}
    {one other : Program (Attempt α)} (h : R one other) {after : Nat → CallError → AfterFailure}
    (errors : List CallError) (left : Nat) :
    R (retryFrom after sleep one errors left) (retryFrom after sleep other errors left) := by
  induction left generalizing errors with
  | zero => exact hbind h fun a => hpure _
  | succ left ih =>
    refine hbind h fun a => ?_
    -- Only a failure that is to be retried goes on.
    cases a with
    | ok value => exact hpure _
    | panicked reason => exact hpure _
    | failed e =>
      cases hafter : after (errors.length + 1) e with
      | settle =>
        simp only [hafter]
        exact hpure _
      | panic reason =>
        simp only [hafter]
        exact hpure _
      | again delay =>
        simp only [hafter]
        exact hbind (hsleep delay) fun _ => ih (e :: errors)

/-- A program whose paths are one attempt each. -/
def IsAttempt {α : Type} (one : Program (Attempt α)) : Prop :=
  ∀ xs a, Path one xs a → ∃ x, xs = [x] ∧ x.effect.IsTry ∧ x.tried? = some a.error?

theorem isAttempt_submitAttempt (request : Request) :
    IsAttempt (CallTask.submitAttempt request) := by
  intro xs a h
  obtain ⟨reply, rfl, rfl⟩ := CallTask.path_submitAttempt_iff.mp h
  exact ⟨_, rfl, trivial, rfl⟩

theorem isAttempt_queryAttempt (request : Request) : IsAttempt (CallTask.queryAttempt request) := by
  intro xs a h
  obtain ⟨reply, rfl, rfl⟩ := CallTask.path_queryAttempt_iff.mp h
  exact ⟨_, rfl, trivial, rfl⟩

/-- What a loop of attempts exchanged: earlier attempts with the waits after them, and the last
attempt. The loop ends as that attempt did, unless the policy panicked over the wait after it. -/
structure Tried {α : Type} (one : Program (Attempt α)) (kept : List CallError) (xs : List Exchange)
    (r : Retried α) (earlier : List Exchange) (last : Exchange) (ended : Attempt α) : Prop where
  exchanges : xs = earlier ++ [last]
  isTry : ∀ x ∈ xs, x.effect.IsTry
  path : Path one [last] ended
  errors : r.errors.map some = kept.map some ++ tries earlier
  result : r.result = ended ∨ ∃ reason, r.result = .panicked reason

section Loop

variable {α : Type} {one : Program (Attempt α)} {policy : RetryPolicy}

theorem tried_of_last {kept : List CallError} {xs : List Exchange} {r : Retried α} {a : Attempt α}
    (ho : IsAttempt one) (h : Path one xs a) (he : r.errors = kept)
    (hr : r.result = a ∨ ∃ reason, r.result = .panicked reason) :
    ∃ x, Tried one kept xs r [] x a := by
  obtain ⟨x, rfl, ht, -⟩ := ho xs a h
  refine ⟨x, rfl, ?_, h, ?_, hr⟩
  · intro y hy
    rw [List.mem_singleton.mp hy]
    exact ht
  · rw [he]
    exact (List.append_nil _).symm

theorem path_retryFrom {after : Nat → CallError → AfterFailure} (ho : IsAttempt one)
    {errors : List CallError} {left : Nat} {xs : List Exchange} {r : Retried α}
    (h : Path (retryFrom after sleep one errors left) xs r) :
    ∃ earlier last ended, Tried one errors.reverse xs r earlier last ended := by
  -- Each turn of the loop adds an error, so the induction is for any errors kept before.
  induction left generalizing errors xs with
  | zero =>
    obtain ⟨a, hone, rfl⟩ := path_bind_pure_iff.mp h
    obtain ⟨x, hx⟩ := tried_of_last (r := ⟨a, errors.reverse⟩) ho hone rfl (.inl rfl)
    exact ⟨[], x, a, hx⟩
  | succ left ih =>
    rw [retryFrom] at h
    obtain ⟨ys, zs, a, rfl, hone, hend⟩ := path_bind_iff.mp h
    -- Every way to end the loop here is the same but for its result.
    have finish : ∀ r : Retried α, r.errors = errors.reverse →
        (r.result = a ∨ ∃ reason, r.result = .panicked reason) →
        ∃ earlier last ended, Tried one errors.reverse (ys ++ []) r earlier last ended := by
      intro r he hr
      rw [List.append_nil]
      obtain ⟨x, hx⟩ := tried_of_last ho hone he hr
      exact ⟨[], x, a, hx⟩
    cases a with
    | ok value =>
      obtain ⟨rfl, rfl⟩ := path_pure_iff.mp hend
      exact finish _ rfl (.inl rfl)
    | panicked reason =>
      obtain ⟨rfl, rfl⟩ := path_pure_iff.mp hend
      exact finish _ rfl (.inl rfl)
    | failed e =>
      cases hk : after (errors.length + 1) e with
      | settle =>
        simp only [hk] at hend
        obtain ⟨rfl, rfl⟩ := path_pure_iff.mp hend
        exact finish _ rfl (.inl rfl)
      | panic reason =>
        simp only [hk] at hend
        obtain ⟨rfl, rfl⟩ := path_pure_iff.mp hend
        exact finish _ rfl (.inr ⟨reason, rfl⟩)
      | again delay =>
        -- The attempt and the wait come in front of what the rest of the loop exchanged.
        simp only [hk] at hend
        obtain ⟨_, ws, rfl, hrest⟩ := path_perform_bind_iff.mp hend
        obtain ⟨earlier, last, ended, t⟩ := ih hrest
        obtain ⟨x, rfl, hx, hfail⟩ := ho ys _ hone
        refine ⟨x :: ⟨.sleep delay, ()⟩ :: earlier, last, ended, ?_, ?_, t.path, ?_, t.result⟩
        · rw [t.exchanges]
          rfl
        · intro y hy
          simp only [List.cons_append, List.nil_append, List.mem_cons] at hy
          rcases hy with rfl | rfl | hy
          · exact hx
          · trivial
          · exact t.isTry y hy
        · have hcons : tries (x :: ⟨.sleep delay, ()⟩ :: earlier) = some e :: tries earlier := by
            simp only [tries, List.filterMap_cons, hfail]
            rfl
          rw [t.errors, hcons, List.reverse_cons, List.map_append, List.append_assoc]
          rfl

/-- A retry loop keeps the errors of all attempts but its last one. -/
theorem path_retry (ho : IsAttempt one) {xs : List Exchange} {r : Retried α}
    (h : Path (retry policy sleep one) xs r) :
    ∃ earlier last ended, Tried one [] xs r earlier last ended :=
  path_retryFrom ho h

theorem Tried.tries (ho : IsAttempt one) {xs : List Exchange} {r : Retried α}
    {earlier : List Exchange} {last : Exchange} {ended : Attempt α}
    (t : Tried one [] xs r earlier last ended) :
    tries xs = r.errors.map some ++ [ended.error?] := by
  obtain ⟨x, hx, -, hlast⟩ := ho [last] ended t.path
  obtain rfl : last = x := by simpa using hx
  have hone : Program.tries [last] = [ended.error?] := by
    simp only [Program.tries, List.filterMap_cons, hlast, List.filterMap_nil]
  calc Program.tries xs
      = Program.tries earlier ++ Program.tries [last] := by rw [t.exchanges, tries_append]
    _ = r.errors.map some ++ [ended.error?] := by rw [hone, t.errors, List.map_nil, List.nil_append]

end Loop

/-! ## Either mode -/

namespace CallTask

variable {binding : Binding} {request : Request} {xs : List Exchange} {r : Retried Settled}

theorem path_submit {policy : RetryPolicy} (h : Path (submit policy request) xs r) :
    ∃ earlier last ended, ∃ s :
      Retried String, Tried (submitAttempt request) [] xs s earlier last ended ∧
      r.errors = s.errors := by
  obtain ⟨s, hloop, rfl⟩ := path_bind_pure_iff.mp h
  obtain ⟨earlier, last, ended, t⟩ := path_retry (isAttempt_submitAttempt request) hloop
  exact ⟨earlier, last, ended, s, t, rfl⟩

/-- A delivered query after its handlers. -/
def judged (handlers : HandlerChain) (response : QueryResponse) : Attempt Settled :=
  settledAs response (handlers.judge response)

/-- What a query comes to: handlers judge without any exchange. -/
theorem query_eq (policy : RetryPolicy) (handlers : HandlerChain) (request : Request) :
    query policy handlers request = (do
      let r ← retry policy Program.sleep (queryAttempt request)
      pure (r.andThen (judged handlers))) := by
  unfold query queryIn
  refine bind_congr fun r => ?_
  obtain ⟨result, errors⟩ := r
  cases result <;> rfl

theorem path_query {policy : RetryPolicy} {handlers : HandlerChain}
    (h : Path (query policy handlers request) xs r) :
    ∃ earlier last ended, ∃ s : Retried QueryResponse,
      Tried (queryAttempt request) [] xs s earlier last ended ∧
      r.errors = s.errors ∧
      ∀ settled, r.result = .ok settled → ∃ response, s.result = .ok response ∧
        judged handlers response = .ok settled := by
  rw [query_eq] at h
  obtain ⟨s, hloop, rfl⟩ := path_bind_pure_iff.mp h
  obtain ⟨earlier, last, ended, t⟩ := path_retry (isAttempt_queryAttempt request) hloop
  refine ⟨earlier, last, ended, s, t, rfl, ?_⟩
  intro settled hok
  have hthen : s.result.andThen (judged handlers) = .ok settled := hok
  cases hs : s.result with
  | ok response =>
    rw [hs] at hthen
    exact ⟨response, rfl, hthen⟩
  | failed e =>
    rw [hs] at hthen
    cases hthen
  | panicked reason =>
    rw [hs] at hthen
    cases hthen

/-- The attempts of a call are those whose errors were kept, and one more. -/
theorem tries_of_attempt (h : Path (attempt binding request) xs r) :
    (∀ x ∈ xs, x.effect.IsTry) ∧ ∃ e, tries xs = r.errors.map some ++ [e] := by
  unfold attempt at h
  cases hm : binding.mode with
  | submit =>
    rw [hm] at h
    obtain ⟨_, _, ended, s, t, he⟩ := path_submit h
    rw [he]
    exact ⟨t.isTry, ended.error?, t.tries (isAttempt_submitAttempt request)⟩
  | query =>
    rw [hm] at h
    obtain ⟨_, _, ended, s, t, he, -⟩ := path_query h
    rw [he]
    exact ⟨t.isTry, ended.error?, t.tries (isAttempt_queryAttempt request)⟩

/-- A query that succeeds: its last exchange delivered a response that the handlers accepted. -/
theorem delivered_of_query {policy : RetryPolicy} {handlers : HandlerChain}
    (h : Path (query policy handlers request) xs r) {settled : Settled}
    (hr : r.result = .ok settled) :
    ∃ earlier response, xs = earlier ++ [⟨.query request, .answered response⟩] ∧
      judged handlers response = .ok settled := by
  obtain ⟨earlier, last, ended, s, t, -, hsettled⟩ := path_query h
  obtain ⟨response, hs, hjudged⟩ := hsettled settled hr
  have hended : ended = .ok response := by
    rcases t.result with he | ⟨reason, he⟩
    · rw [← he, hs]
    · rw [hs] at he
      cases he
  obtain ⟨reply, hlast, hreply⟩ := path_queryAttempt_iff.mp t.path
  obtain rfl : last = ⟨.query request, reply⟩ := by simpa using hlast
  rw [hended] at hreply
  -- Only an answered query is delivered.
  cases reply with
  | answered delivered =>
    obtain rfl : response = delivered := by simpa [Reply.delivered] using hreply
    exact ⟨earlier, response, t.exchanges, hjudged⟩
  | failed e => cases hreply
  | panicked reason => cases hreply

end CallTask

/-! ## Panics of the ledger -/

/-- The program ends with the ledger's panic, where it meets one. -/
def EndsAtPanic {α : Type} (one : Program (Attempt α)) : Prop :=
  ∀ xs a, Path one xs a → ∀ x ∈ xs, ∀ reason, x.panic? = some reason → a = .panicked reason

theorem endsAtPanic_submitAttempt (request : Request) :
    EndsAtPanic (CallTask.submitAttempt request) := by
  intro xs a h x hx reason hp
  obtain ⟨reply, rfl, rfl⟩ := CallTask.path_submitAttempt_iff.mp h
  rw [List.mem_singleton.mp hx] at hp
  obtain rfl := Reply.panic?_eq_some_iff.mp hp
  rfl

theorem endsAtPanic_queryAttempt (request : Request) :
    EndsAtPanic (CallTask.queryAttempt request) := by
  intro xs a h x hx reason hp
  obtain ⟨reply, rfl, rfl⟩ := CallTask.path_queryAttempt_iff.mp h
  rw [List.mem_singleton.mp hx] at hp
  obtain rfl := Reply.panic?_eq_some_iff.mp hp
  rfl

theorem panicked_of_retryFrom {α : Type} {one : Program (Attempt α)}
    {after : Nat → CallError → AfterFailure} (ho : EndsAtPanic one) {errors : List CallError}
    {left : Nat} {xs : List Exchange} {r : Retried α}
    (h : Path (retryFrom after sleep one errors left) xs r) {x : Exchange} (hx : x ∈ xs)
    {reason : String} (hp : x.panic? = some reason) : r.result = .panicked reason := by
  induction left generalizing errors xs with
  | zero =>
    obtain ⟨a, hone, rfl⟩ := path_bind_pure_iff.mp h
    exact ho xs a hone x hx reason hp
  | succ left ih =>
    rw [retryFrom] at h
    obtain ⟨ys, zs, a, rfl, hone, hend⟩ := path_bind_iff.mp h
    rcases List.mem_append.mp hx with hx | hx
    · -- The panic is that of this attempt, and nothing is tried again after it.
      obtain rfl := ho ys a hone x hx reason hp
      obtain ⟨-, rfl⟩ := path_pure_iff.mp hend
      rfl
    · -- Only a loop that goes on exchanges anything after the attempt.
      cases a with
      | ok value =>
        obtain ⟨rfl, -⟩ := path_pure_iff.mp hend
        cases hx
      | panicked said =>
        obtain ⟨rfl, -⟩ := path_pure_iff.mp hend
        cases hx
      | failed e =>
        cases hk : after (errors.length + 1) e with
        | settle =>
          simp only [hk] at hend
          obtain ⟨rfl, -⟩ := path_pure_iff.mp hend
          cases hx
        | panic said =>
          simp only [hk] at hend
          obtain ⟨rfl, -⟩ := path_pure_iff.mp hend
          cases hx
        | again delay =>
          simp only [hk] at hend
          obtain ⟨_, ws, rfl, hrest⟩ := path_perform_bind_iff.mp hend
          rcases List.mem_cons.mp hx with rfl | hx
          · cases hp
          · exact ih hrest hx

/-- Where the ledger panics the attempts end, with what it said. -/
theorem CallTask.panicked_of_attempt {binding : Binding} {request : Request} {xs : List Exchange}
    {r : Retried Settled} (h : Path (attempt binding request) xs r) {x : Exchange} (hx : x ∈ xs)
    {reason : String} (hp : x.panic? = some reason) : r.result = .panicked reason := by
  unfold attempt at h
  cases hm : binding.mode with
  | submit =>
    rw [hm] at h
    obtain ⟨ys, zs, s, rfl, hloop, hend⟩ := path_bind_iff.mp h
    obtain ⟨rfl, rfl⟩ := path_pure_iff.mp hend
    rw [List.append_nil] at hx
    have hs := panicked_of_retryFrom (endsAtPanic_submitAttempt request) hloop hx hp
    simp only [hs]
  | query =>
    rw [hm] at h
    have hquery : Path (query binding.policy binding.handlers request) xs r := h
    rw [query_eq] at hquery
    obtain ⟨ys, zs, s, rfl, hloop, hend⟩ := path_bind_iff.mp hquery
    obtain ⟨rfl, rfl⟩ := path_pure_iff.mp hend
    rw [List.append_nil] at hx
    have hs := panicked_of_retryFrom (endsAtPanic_queryAttempt request) hloop hx hp
    show s.result.andThen _ = _
    rw [hs]
    rfl

end LedgerBench
