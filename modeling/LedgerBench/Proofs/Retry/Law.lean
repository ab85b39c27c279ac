import LedgerBench.Retry.Rehearsal
import Mathlib.Data.Nat.Find
/-!
The law of retries.

An attempt settles a call if it succeeds, fails with an error that the policy does not retry, or is
the last that the policy allows. The first one that does is the last one made, unless the policy
panics over a delay before. What is proved:
  1. `exists_isLast`, `IsLast.course`: there is such an attempt, and where the policy has a delay
     after each attempt before it, all of those fail and are followed by their delays. A `Course`
     says the same of any policy; it may end with the policy's panic.
  2. `Judgement.runs_retryTelling`: a loop on a course does what it should, step by step, in
     whatever way one says what a computation does. The induction is done here once, for rehearsals
     and for the paths of programs.
  3. `rehearse_of_delays`: how often a loop makes attempts, when each of them starts, what it tells
     and what it comes to, for any results.
-/

namespace LedgerBench

variable {α : Type}

/-- What exists for each number in a range is given by a function. -/
theorem exists_of_range {β : Type} [Nonempty β] {P : Nat → β → Prop} (n : Nat)
    (h : ∀ k, 1 ≤ k → k < n → ∃ b, P k b) :
    ∃ f : Nat → β, ∀ k, 1 ≤ k → k < n → P k (f k) := by
  have hall : ∀ k, ∃ b, 1 ≤ k → k < n → P k b := by
    intro k
    by_cases hk : 1 ≤ k ∧ k < n
    · obtain ⟨b, hb⟩ := h k hk.1 hk.2
      exact ⟨b, fun _ _ => hb⟩
    · exact ⟨Classical.ofNonempty, fun hpos hlt => absurd ⟨hpos, hlt⟩ hk⟩
  exact Classical.skolem.mp hall

/-! ## The last attempt -/

namespace RetryPolicy

variable {policy : RetryPolicy} {results : Nat → Attempt α} {delays : Nat → Duration} {n : Nat}

/-- Whether a call is settled by its `k`-th attempt, the first one having number 1. -/
def Settles (policy : RetryPolicy) (k : Nat) : Attempt α → Prop
  | .ok _ | .panicked _ => True
  | .failed e => e.kind = .endorsement ∨ e.kind ∉ policy.retryOn ∨ max 1 policy.maxAttempts ≤ k

instance (policy : RetryPolicy) (k : Nat) : (a : Attempt α) → Decidable (policy.Settles k a)
  | .ok _ | .panicked _ => isTrue trivial
  | .failed e =>
    inferInstanceAs (Decidable (e.kind = .endorsement ∨ e.kind ∉ policy.retryOn ∨
      max 1 policy.maxAttempts ≤ k))

/-- The attempt that settles a call: the first one of those that do. -/
structure IsLast (policy : RetryPolicy) (results : Nat → Attempt α) (n : Nat) : Prop where
  pos : 1 ≤ n
  settles : policy.Settles n (results n)
  earlier : ∀ k, 1 ≤ k → k < n → ¬ policy.Settles k (results k)

theorem settles_of_le {k : Nat} (h : max 1 policy.maxAttempts ≤ k) (a : Attempt α) :
    policy.Settles k a := by
  cases a with
  | ok value => trivial
  | panicked reason => trivial
  | failed e => exact .inr (.inr h)

theorem exists_isLast (policy : RetryPolicy) (results : Nat → Attempt α) :
    ∃ n, policy.IsLast results n := by
  have hexists : ∃ k, 1 ≤ k ∧ policy.Settles k (results k) :=
    ⟨max 1 policy.maxAttempts, Nat.le_max_left .., settles_of_le (Nat.le_refl _) _⟩
  obtain ⟨hpos, hsettles⟩ := Nat.find_spec hexists
  exact ⟨_, hpos, hsettles, fun k hk hlt hs => Nat.find_min hexists hlt ⟨hk, hs⟩⟩

theorem IsLast.le (h : policy.IsLast results n) : n ≤ max 1 policy.maxAttempts := by
  by_contra hlt
  exact h.earlier _ (Nat.le_max_left ..) (Nat.lt_of_not_le hlt) (settles_of_le (Nat.le_refl _) _)

theorem IsLast.unique {m : Nat} (h : policy.IsLast results n)
    (h' : policy.IsLast results m) : n = m := by
  rcases Nat.lt_trichotomy n m with hlt | heq | hlt
  · exact absurd h.settles (h'.earlier n h.pos hlt)
  · exact heq
  · exact absurd h'.settles (h.earlier m h'.pos hlt)

theorem isRetryable_iff {kind : ErrorKind} :
    policy.isRetryable kind = true ↔ kind ≠ .endorsement ∧ kind ∈ policy.retryOn := by
  simp [isRetryable]

/-! ## Courses -/

/-- An error that is retried after a delay. -/
structure Retries (policy : RetryPolicy) (k : Nat) (e : CallError) (delay : Duration) : Prop where
  isRetryable : policy.isRetryable e.kind = true
  allowed : k < policy.maxAttempts
  nextDelay : policy.nextDelay? k = .ok delay

/-- How a loop ends with its `k`-th attempt: as that attempt did, or with the policy's panic where
it has no delay for another one. -/
inductive Ends (policy : RetryPolicy) (k : Nat) : Attempt α → Attempt α → Prop where
  | settled {a : Attempt α} (h : policy.Settles k a) : Ends policy k a a
  | noDelay {e : CallError} {cause : Duration.OfSecondsError}
    (hretried : policy.isRetryable e.kind = true) (hallowed : k < policy.maxAttempts)
      (h : policy.nextDelay? k = .error cause) : Ends policy k (.failed e) (.panicked cause.message)

/-- How a loop gets to its last attempt, and what it comes to: each attempt before fails, and is
followed by its delay and by another one. -/
structure Course (policy : RetryPolicy) (results : Nat → Attempt α) (delays : Nat → Duration)
    (errors : Nat → CallError) (n : Nat) (result : Attempt α) : Prop where
  pos : 1 ≤ n
  failed : ∀ k, 1 ≤ k → k < n → results k = .failed (errors k)
  retried : ∀ k, 1 ≤ k → k < n → policy.Retries k (errors k) (delays k)
  ends : policy.Ends n (results n) result

/-- An attempt that does not settle the call fails with an error that is retried, and the policy
allows another one. -/
theorem failed_of_not_settles {k : Nat} (hk : 1 ≤ k) {a : Attempt α} (h : ¬ policy.Settles k a) :
    ∃ e, a = .failed e ∧ policy.isRetryable e.kind = true ∧ k < policy.maxAttempts := by
  cases a with
  | ok value => exact absurd trivial h
  | panicked reason => exact absurd trivial h
  | failed e =>
    simp only [Settles, not_or, not_not] at h
    obtain ⟨hkind, hretried, hallowed⟩ := h
    exact ⟨e, rfl, isRetryable_iff.mpr ⟨hkind, hretried⟩, by omega⟩

theorem IsLast.course (h : policy.IsLast results n)
    (hdelays : ∀ k, 1 ≤ k → k < policy.maxAttempts → policy.nextDelay? k = .ok (delays k)) :
    ∃ errors, policy.Course results delays errors n (results n) := by
  have : Nonempty CallError := ⟨CallError.panicked ""⟩
  obtain ⟨errors, herrors⟩ :=
    exists_of_range n fun k hk hlt => failed_of_not_settles hk (h.earlier k hk hlt)
  refine ⟨errors, h.pos, fun k hk hlt => (herrors k hk hlt).1, fun k hk hlt => ?_,
    .settled h.settles⟩
  obtain ⟨-, hretried, hallowed⟩ := herrors k hk hlt
  exact ⟨hretried, hallowed, hdelays k hk hallowed⟩

/-- Where the policy never asks for a negative delay, its delays are those of some course. -/
theorem IsLast.exists_course (h : policy.IsLast results n)
    (hdelays : ∀ k, 1 ≤ k → k < policy.maxAttempts → ∃ delay, policy.nextDelay? k = .ok delay) :
    ∃ delays errors, policy.Course results delays errors n (results n) := by
  obtain ⟨delays, hdelays⟩ := exists_of_range policy.maxAttempts hdelays
  obtain ⟨errors, hcourse⟩ := h.course hdelays
  exact ⟨delays, errors, hcourse⟩

/-- Whatever is made of its end, a loop on a course counts as many attempts as there were. -/
theorem Course.attempts_eq {β : Type} {errors : Nat → CallError} {result : Attempt α}
    (c : policy.Course results delays errors n result) (ended : Attempt β) :
    (⟨ended, (List.range' 1 (n - 1)).map errors⟩ : Retried β).attempts = n := by
  rw [Retried.attempts, List.length_map, List.length_range', Nat.sub_add_cancel c.pos]

theorem Retries.afterFailure {k : Nat} {e : CallError} {delay : Duration}
    (h : policy.Retries k e delay) :
    policy.afterFailure k e = .again delay := by
  rw [RetryPolicy.afterFailure, if_pos h.isRetryable, h.nextDelay]

/-- An error that settles the call where more attempts are allowed is not retried. -/
theorem afterFailure_eq_settle {k : Nat} {e : CallError}
    (h : policy.Settles k (.failed e : Attempt α)) (hallowed : k < policy.maxAttempts) :
    policy.afterFailure k e = .settle := by
  have hno : ¬ policy.isRetryable e.kind = true := by
    rw [isRetryable_iff]
    rintro ⟨hkind, hretried⟩
    rcases h with h | h | h
    · exact hkind h
    · exact h hretried
    · omega
  rw [RetryPolicy.afterFailure, if_neg hno]

end RetryPolicy

/-! ## Loops on a course -/

/-- A way of saying that a computation that begins in some state comes to a value and leaves another
state. -/
structure Judgement (m : Type → Type) [Monad m] (σ : Type) where
  runs : {α : Type} → m α → σ → α → σ → Prop
  runs_pure : ∀ {α : Type} (a : α) (s : σ), runs (pure a) s a s
  runs_bind : ∀ {α β : Type} {x : m α} {f : α → m β} {s mid later : σ} {a : α} {b : β},
    runs x s a mid → runs (f a) mid b later → runs (x >>= f) s b later

namespace Judgement

variable {m : Type → Type} [Monad m] {σ : Type} (J : Judgement m σ)

/-- Computations that change a state say themselves what they come to. -/
def ofState : Judgement (StateM σ) σ where
  runs x s a later := x.run s = (a, later)
  runs_pure _ _ := rfl
  runs_bind hx hf := by
    rw [StateT.run_bind, hx]
    exact hf

variable {policy : RetryPolicy} {results : Nat → Attempt α} {delays : Nat → Duration}
  {errors : Nat → CallError} {n : Nat} {result : Attempt α} {sleep : Duration → m Unit}
  {beforeRetry : CallError → m Unit} {attempt : m (Attempt α)} {before tried slept : Nat → σ}

/-- The last turn of a loop. -/
theorem runs_last {k left : Nat} {kept : List CallError} {mid later : σ} {a result : Attempt α}
    (h : policy.Ends (k + 1) a result) (hleft : left = policy.maxAttempts - 1 - k)
    (hkept : kept.length = k) (hattempt : J.runs attempt mid a later) :
    J.runs (retryLoop policy.afterFailure sleep beforeRetry attempt kept left) mid
      ⟨result, kept.reverse⟩ later := by
  cases h with
  | settled hsettles =>
    cases left with
    | zero => exact J.runs_bind hattempt (J.runs_pure _ _)
    | succ left =>
      refine J.runs_bind hattempt ?_
      cases a with
      | ok value => exact J.runs_pure _ _
      | panicked reason => exact J.runs_pure _ _
      | failed e =>
        -- Another attempt is allowed, so the error is one that is not retried.
        simp only [hkept, RetryPolicy.afterFailure_eq_settle hsettles (by omega)]
        exact J.runs_pure _ _
  | @noDelay e cause hretried hallowed hdelay =>
    obtain ⟨left, rfl⟩ : ∃ l, left = l + 1 := ⟨left - 1, by omega⟩
    have hpanic : policy.afterFailure (k + 1) e = .panic cause.message := by
      rw [RetryPolicy.afterFailure, if_pos hretried, hdelay]
    refine J.runs_bind hattempt ?_
    simp only [hkept, hpanic]
    exact J.runs_pure _ _

/-- A loop on a course: `before i` is the state in which it makes attempt `i + 1`, and `tried i` and
`slept i` are those after this attempt and after the wait that follows it. -/
theorem runs_retryTelling (c : policy.Course results delays errors n result)
    (hattempt : ∀ i, J.runs attempt (before i) (results (i + 1)) (tried i))
    (hsleep : ∀ i, J.runs (sleep (delays (i + 1))) (tried i) () (slept i))
    (htell : ∀ i, J.runs (beforeRetry (errors (i + 1))) (slept i) () (before (i + 1))) :
    J.runs (retryTelling policy sleep beforeRetry attempt) (before 0)
      ⟨result, (List.range' 1 (n - 1)).map errors⟩ (tried (n - 1)) := by
  obtain ⟨last, rfl⟩ := Nat.exists_eq_add_of_le' c.pos
  rw [Nat.add_sub_cancel]
  -- The induction is on how many more attempts will be made; the errors kept are those of the
  -- attempts before.
  have hloop : ∀ d i kept left, i + d = last → kept.reverse = (List.range' 1 i).map errors →
      left = policy.maxAttempts - 1 - i →
      J.runs (retryLoop policy.afterFailure sleep beforeRetry attempt kept left) (before i)
        ⟨result, (List.range' 1 last).map errors⟩ (tried last) := by
    intro d
    induction d with
    | zero =>
      intro i kept left hi hkept hleft
      obtain rfl : i = last := hi
      rw [← hkept]
      exact J.runs_last c.ends hleft (by simpa using congrArg List.length hkept) (hattempt i)
    | succ d ih =>
      intro i kept left hi hkept hleft
      have hlength : kept.length = i := by simpa using congrArg List.length hkept
      have hretries := c.retried (i + 1) (by omega) (by omega)
      have hallowed := hretries.allowed
      obtain ⟨left, rfl⟩ : ∃ l, left = l + 1 := ⟨left - 1, by omega⟩
      have hkept' : (errors (i + 1) :: kept).reverse = (List.range' 1 (i + 1)).map errors := by
        rw [List.reverse_cons, hkept, List.range'_concat, List.map_append, Nat.one_mul,
          Nat.add_comm 1 i]
        rfl
      refine J.runs_bind (hattempt i) ?_
      rw [c.failed (i + 1) (by omega) (by omega)]
      simp only [hlength, hretries.afterFailure]
      exact J.runs_bind (hsleep i)
        (J.runs_bind (htell i) (ih (i + 1) _ left (by omega) hkept' (by omega)))
  exact hloop last 0 [] _ (Nat.zero_add _) rfl rfl

/-- The same of a loop that tells nobody. -/
theorem runs_retry (c : policy.Course results delays errors n result)
    (hattempt : ∀ i, J.runs attempt (before i) (results (i + 1)) (tried i))
    (hsleep : ∀ i, J.runs (sleep (delays (i + 1))) (tried i) () (before (i + 1))) :
    J.runs (retry policy sleep attempt) (before 0) ⟨result, (List.range' 1 (n - 1)).map errors⟩
      (tried (n - 1)) := by
  show J.runs (retryTelling policy sleep (fun _ => pure ()) attempt) _ _ _
  exact J.runs_retryTelling c hattempt hsleep fun i => J.runs_pure () _

end Judgement

/-! ## Waits -/

/-- A wait for whole milliseconds takes as long as it should. -/
theorem Duration.waited_of_whole {d : Duration} (hwhole : d.nanos % Duration.perMilli = 0)
    (hle : d ≤ Duration.longestWait) : d.waited = d := by
  obtain ⟨nanos⟩ := d
  have hmillis : ofMillis ((nanos + (perMilli - 1)) / perMilli) = ⟨nanos⟩ := by
    simp only [ofMillis, perMilli, Duration.mk.injEq] at hwhole ⊢
    omega
  have hle' : nanos ≤ longestWait.nanos := hle
  rw [waited, hmillis, Duration.min]
  split
  · next hge => exact congrArg Duration.mk (Nat.le_antisymm hge hle')
  · rfl

/-- When attempt `k + 1` starts: after the waits for the `k` delays before it. -/
def startAfter (delays : Nat → Duration) (k : Nat) : Duration :=
  ⟨((List.range' 1 k).map fun i => (delays i).waited.nanos).sum⟩

theorem startAfter_succ (delays : Nat → Duration) (k : Nat) :
    startAfter delays (k + 1) = startAfter delays k + (delays (k + 1)).waited := by
  simp only [startAfter, List.range'_concat, List.map_append, List.sum_append, Nat.one_mul,
    Nat.add_comm 1 k]
  exact congrArg Duration.mk (congrArg _ (List.sum_singleton ..))

theorem startAfter_of_whole {delays : Nat → Duration} {k : Nat}
    (h : ∀ i, 1 ≤ i → i ≤ k → (delays i).nanos % Duration.perMilli = 0 ∧
      delays i ≤ Duration.longestWait) :
    startAfter delays k = ⟨((List.range' 1 k).map fun i => (delays i).nanos).sum⟩ := by
  have hwaits : (List.range' 1 k).map (fun i => (delays i).waited.nanos) =
      (List.range' 1 k).map fun i => (delays i).nanos := by
    refine List.map_congr_left fun i hi => ?_
    obtain ⟨hpos, hle⟩ := List.mem_range'_1.mp hi
    obtain ⟨hwhole, hshort⟩ := h i hpos (by omega)
    rw [Duration.waited_of_whole hwhole hshort]
  rw [startAfter, hwaits]

/-! ## Rehearsals -/

/-- What a loop does before attempt `k + 1`: each attempt before it is followed by its delay, and
then its error is told. -/
def stepsBefore (delays : Nat → Duration) (errors : Nat → CallError) (k : Nat) : List RetryStep :=
  (List.range' 1 k).flatMap fun i =>
    [.attempted (startAfter delays (i - 1)), .slept (delays i), .told (errors i)]

theorem stepsBefore_succ (delays : Nat → Duration) (errors : Nat → CallError) (k : Nat) :
    stepsBefore delays errors (k + 1) =
      stepsBefore delays errors k ++ [.attempted (startAfter delays k), .slept (delays (k + 1)),
          .told (errors (k + 1))] := by
  simp only [stepsBefore, List.range'_concat, List.flatMap_append, List.flatMap_singleton,
    Nat.one_mul, Nat.add_comm 1 k, Nat.add_sub_cancel]

namespace Rehearsal

variable {policy : RetryPolicy} {results : Nat → Attempt α} {delays : Nat → Duration}
  {errors : Nat → CallError} {n : Nat} {result : Attempt α}

/-- A rehearsal before attempt `k + 1`. -/
def upTo (delays : Nat → Duration) (errors : Nat → CallError) (k : Nat) : Rehearsal where
  clock := startAfter delays k
  attempts := k
  steps := stepsBefore delays errors k

/-- A rehearsal right after attempt `k + 1`. -/
def through (delays : Nat → Duration) (errors : Nat → CallError) (k : Nat) : Rehearsal where
  clock := startAfter delays k
  attempts := k + 1
  steps := stepsBefore delays errors k ++ [.attempted (startAfter delays k)]

theorem rehearse_of_course (c : policy.Course results delays errors n result) :
    policy.rehearse results = (⟨result, (List.range' 1 (n - 1)).map errors⟩,
        through delays errors (n - 1)) := by
  let slept (i : Nat) : Rehearsal := { through delays errors i with
    clock := startAfter delays i + (delays (i + 1)).waited
    steps := (through delays errors i).steps ++ [.slept (delays (i + 1))] }
  have hattempt : ∀ i, Judgement.ofState.runs (attempt results) (upTo delays errors i)
      (results (i + 1)) (through delays errors i) := fun _ => rfl
  have hsleep : ∀ i, Judgement.ofState.runs (sleep (delays (i + 1))) (through delays errors i) ()
      (slept i) := fun _ => rfl
  have htell : ∀ i, Judgement.ofState.runs (tell (errors (i + 1))) (slept i) ()
      (upTo delays errors (i + 1)) := by
    intro i
    show ((), { slept i with steps := (slept i).steps ++ [.told (errors (i + 1))] }) =
      ((), upTo delays errors (i + 1))
    simp only [slept, through, upTo, startAfter_succ, stepsBefore_succ, List.append_assoc,
      List.cons_append, List.nil_append]
  exact Judgement.ofState.runs_retryTelling c hattempt hsleep htell

end Rehearsal

/-- The law of retries. Attempts are made until one settles the call; the one that does is the last.
Each attempt before it fails with an error that is retried, waits for its delay, and is then told,
right before the next one. -/
theorem rehearse_of_delays (policy : RetryPolicy) (results : Nat → Attempt α)
    (delays : Nat → Duration)
    (hdelays : ∀ k, 1 ≤ k → k < policy.maxAttempts → policy.nextDelay? k = .ok (delays k)) :
    ∃ n errors, policy.IsLast results n ∧ n ≤ max 1 policy.maxAttempts ∧
      (policy.maxAttempts < 2 ^ 32 → n < 2 ^ 32) ∧
      (∀ k, 1 ≤ k → k < n → results k = .failed (errors k) ∧ (errors k).kind ≠ .endorsement ∧
          (errors k).kind ∈ policy.retryOn) ∧
      policy.rehearse results = (⟨results n, (List.range' 1 (n - 1)).map errors⟩,
        ⟨startAfter delays (n - 1), n, stepsBefore delays errors (n - 1) ++
            [.attempted (startAfter delays (n - 1))]⟩) ∧
      ((∀ k, 1 ≤ k → k < n → (delays k).nanos % Duration.perMilli = 0 ∧
        delays k ≤ Duration.longestWait) →
        ∀ k, k < n → startAfter delays k =
          ⟨((List.range' 1 k).map fun i => (delays i).nanos).sum⟩) := by
  obtain ⟨n, hlast⟩ := policy.exists_isLast results
  obtain ⟨errors, hcourse⟩ := hlast.course hdelays
  refine ⟨n, errors, hlast, hlast.le, ?_, ?_, ?_, ?_⟩
  · have hle := hlast.le
    omega
  · intro k hk hlt
    obtain ⟨hkind, hretried⟩ :=
      RetryPolicy.isRetryable_iff.mp (hcourse.retried k hk hlt).isRetryable
    exact ⟨hcourse.failed k hk hlt, hkind, hretried⟩
  · rw [Rehearsal.rehearse_of_course hcourse, Rehearsal.through, Nat.sub_add_cancel hlast.pos]
  · intro hwhole k hk
    exact startAfter_of_whole fun i hi hle => hwhole i hi (by omega)

/-! ### Some policies -/

theorem RetryPolicy.nextDelay?_of_toOption {policy : RetryPolicy} {k : Nat} {d : Duration}
    (h : (policy.nextDelay? k).toOption = some d) :
    policy.nextDelay? k = .ok d := by
  cases hd : policy.nextDelay? k with
  | ok delay =>
    rw [hd] at h
    exact congrArg Except.ok (Option.some.inj h)
  | error cause =>
    rw [hd] at h
    cases h

theorem RetryPolicy.nextDelay?_default :
    ∀ k, 1 ≤ k → k < 3 → ({} : RetryPolicy).nextDelay? k = .ok (Duration.ofSecs k) := by
  intro k hpos hlt
  obtain rfl | rfl : k = 1 ∨ k = 2 := by omega
  · exact nextDelay?_of_toOption (by decide +kernel)
  · exact nextDelay?_of_toOption (by decide +kernel)

/-- Two failures and a success, with the delays of one and two seconds that there are by default. -/
theorem rehearse_of_delays_doubling :
    (∀ k, 1 ≤ k → k < 3 → ({} : RetryPolicy).nextDelay? k = .ok (Duration.ofSecs k)) ∧
    ∃ conflict reset : CallError, conflict.kind = .transient ∧ reset.kind = .transport ∧
      ({} : RetryPolicy).rehearse (fun k => if k = 1 then .failed conflict
        else if k = 2 then .failed reset else .ok "done") =
        (⟨.ok "done", [conflict, reset]⟩,
          ⟨Duration.ofSecs 3, 3, [.attempted Duration.zero, .slept (Duration.ofSecs 1),
            .told conflict,
            .attempted (Duration.ofSecs 1), .slept (Duration.ofSecs 2), .told reset,
              .attempted (Duration.ofSecs 3)]⟩) := by
  refine ⟨RetryPolicy.nextDelay?_default, ⟨.transient, "conflict", none⟩,
    ⟨.transport, "reset", none⟩, rfl, rfl, ?_⟩
  obtain ⟨n, errors, hlast, -, -, hfailed, hrehearse, -⟩ := rehearse_of_delays {}
    (fun k => if k = 1 then .failed ⟨.transient, "conflict", none⟩
      else if k = 2 then .failed ⟨.transport, "reset", none⟩ else .ok "done")
    Duration.ofSecs RetryPolicy.nextDelay?_default
  -- The third attempt is the first one that settles the call.
  obtain rfl : n = 3 := hlast.unique ⟨by decide, trivial, fun k hpos hlt => by
    obtain rfl | rfl : k = 1 ∨ k = 2 := by omega
    · decide
    · decide⟩
  have hconflict := (hfailed 1 (by decide) (by decide)).1
  have hreset := (hfailed 2 (by decide) (by decide)).1
  rw [hrehearse]
  simp only [List.range', List.map_cons, List.map_nil, stepsBefore, List.flatMap_cons,
    List.flatMap_nil]
  rw [← Attempt.failed.inj hconflict, ← Attempt.failed.inj hreset]
  rfl

theorem Binary64.power_one (n : Nat) : Binary64.one.power n = Binary64.one := by
  have hsquare : Binary64.one.mul Binary64.one = Binary64.one := by decide +kernel
  show powerFrom one one n = one
  induction n using Nat.strongRecOn with
  | ind n ih =>
    rw [powerFrom, hsquare, ite_self]
    split
    · rfl
    · exact ih (n / 2) (by omega)

/-- Nobody waits longer than thirty years: after a delay of a thousand million seconds the next
attempt starts too early. -/
theorem rehearse_beyond_longestWait :
    let policy : RetryPolicy :=
      { initialBackoff := Duration.ofSecs 1000000000, maxBackoff := Duration.ofSecs 10000000000000,
        backoffFactor := Binary64.one }
    let lost : CallError := ⟨.transport, "x", none⟩
    (∀ k, policy.nextDelay? k = .ok (Duration.ofSecs 1000000000)) ∧
    policy.rehearse (fun k => if k = 1 then .failed lost else .ok "v") =
      (⟨.ok "v", [lost]⟩, ⟨Duration.ofSecs 946080000, 2,
        [.attempted Duration.zero, .slept (Duration.ofSecs 1000000000), .told lost,
        .attempted (Duration.ofSecs 946080000)]⟩) ∧
    Duration.ofSecs 946080000 ≠ Duration.ofSecs 1000000000 := by
  refine ⟨fun k => RetryPolicy.nextDelay?_of_toOption ?_, by decide +kernel, by decide⟩
  simp only [RetryPolicy.nextDelay?, RetryPolicy.rawDelay, Binary64.power_one]
  decide +kernel

/-- A factor of minus one asks for a negative delay after the second attempt. -/
def RetryPolicy.alternating : RetryPolicy := { backoffFactor := Binary64.one.neg }

/-- With such a factor a call that keeps failing panics after its second attempt, although the
policy allows three. -/
theorem RetryPolicy.course_alternating {results : Nat → Attempt α} {e : CallError}
    (hresults : ∀ k, results k = .failed e) (hretried : alternating.isRetryable e.kind = true) :
    alternating.IsLast results 3 ∧ ∃ reason, alternating.Course results (fun _ => Duration.ofSecs 1)
      (fun _ => e) 2 (.panicked reason) := by
  obtain ⟨hkind, hlisted⟩ := isRetryable_iff.mp hretried
  have hfirst : alternating.nextDelay? 1 = .ok (Duration.ofSecs 1) :=
    nextDelay?_of_toOption (by decide +kernel)
  obtain ⟨cause, hsecond⟩ : ∃ cause, alternating.nextDelay? 2 = .error cause := by
    have hnone : (alternating.nextDelay? 2).toOption = none := by decide +kernel
    cases hdelay : alternating.nextDelay? 2 with
    | ok delay =>
      rw [hdelay] at hnone
      cases hnone
    | error cause => exact ⟨cause, rfl⟩
  constructor
  · refine ⟨by decide, settles_of_le (by decide) _, fun k hpos hlt => ?_⟩
    rw [hresults]
    rintro (h | h | h)
    · exact hkind h
    · exact h hlisted
    · exact absurd (Nat.lt_of_lt_of_le hlt h) (Nat.lt_irrefl _)
  · refine ⟨cause.message, by decide, fun k _ _ => hresults k, fun k hpos hlt => ?_, ?_⟩
    · obtain rfl : k = 1 := by omega
      exact ⟨hretried, by decide, hfirst⟩
    · rw [hresults]
      exact .noDelay hretried (by decide) hsecond

end LedgerBench
