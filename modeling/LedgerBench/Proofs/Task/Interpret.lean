import LedgerBench.Proofs.Task.Path
import LedgerBench.Retry.Loop
/-!
Programs carried over to another monad.

The expansion of arguments and the loop of attempts are written for any monad, so a task's program
and a computation that simply changes a state are two readings of the same text. What is proved:
  1. `Carrying`: whatever carries single steps and sequences from one monad to another carries
     expansions and retry loops over with them (`apply_expandArgs`, `apply_retry`).
  2. `Program.carrying`: interpreting a program is of this kind.
-/

namespace LedgerBench

/-- A way to carry computations from one monad to another. -/
structure Carrying (m n : Type → Type) [Monad m] [Monad n] where
  apply : {α : Type} → m α → n α
  apply_pure : ∀ {α : Type} (a : α), apply (pure a) = pure a
  apply_bind : ∀ {α β : Type} (x : m α) (f : α → m β), apply (x >>= f) = apply x >>=
    fun a => apply (f a)

namespace Carrying

variable {m n : Type → Type} [Monad m] [Monad n] (t : Carrying m n) {α β : Type}

/-! ## Loops of attempts -/

theorem apply_retryLoop (sleep : Duration → m Unit) (beforeRetry : CallError → m Unit)
    (attempt : m (Attempt α)) (after : Nat → CallError → AfterFailure) (errors : List CallError)
    (left : Nat) :
    t.apply (retryLoop after sleep beforeRetry attempt errors left) =
      retryLoop after (fun delay => t.apply (sleep delay)) (fun e => t.apply (beforeRetry e))
        (t.apply attempt) errors left := by
  induction left generalizing errors with
  | zero => simp only [retryLoop, t.apply_bind, t.apply_pure]
  | succ left ih =>
    simp only [retryLoop, t.apply_bind]
    refine bind_congr fun result => ?_
    -- Only a failure that is to be retried goes on.
    cases result with
    | ok value => exact t.apply_pure _
    | panicked reason => exact t.apply_pure _
    | failed e =>
      cases hafter : after (errors.length + 1) e with
      | settle => simp only [hafter, t.apply_pure]
      | panic reason => simp only [hafter, t.apply_pure]
      | again delay => simp only [hafter, t.apply_bind, ih]

theorem apply_retryFrom (sleep : Duration → m Unit) (attempt : m (Attempt α))
    (after : Nat → CallError → AfterFailure) (errors : List CallError) (left : Nat) :
    t.apply (retryFrom after sleep attempt errors left) =
      retryFrom after (fun delay => t.apply (sleep delay)) (t.apply attempt) errors left := by
  have htold : (fun e : CallError => t.apply (pure () : m Unit)) = fun _ => pure () :=
    funext fun _ => t.apply_pure ()
  rw [retryFrom, apply_retryLoop, htold]
  rfl

theorem apply_retry (policy : RetryPolicy) (sleep : Duration → m Unit) (attempt : m (Attempt α)) :
    t.apply (retry policy sleep attempt) = retry policy (fun delay => t.apply (sleep delay))
      (t.apply attempt) :=
  t.apply_retryFrom sleep attempt policy.afterFailure [] (policy.maxAttempts - 1)

/-! ## Templates -/

theorem apply_foldlM (f : β → α → m β) (b : β) (l : List α) :
    t.apply (l.foldlM f b) = l.foldlM (fun b a => t.apply (f b a)) b := by
  induction l generalizing b with
  | nil => rw [List.foldlM_nil, List.foldlM_nil, t.apply_pure]
  | cons a rest ih => simp only [List.foldlM_cons, t.apply_bind, ih]

variable [LawfulMonad m] [LawfulMonad n] (resolve : Form → List Char → m Resolution)

theorem apply_mapM (f : α → m β) (l : List α) :
    t.apply (l.mapM f) = l.mapM fun a => t.apply (f a) := by
  induction l with
  | nil => rw [List.mapM_nil, List.mapM_nil, t.apply_pure]
  | cons a rest ih => simp only [List.mapM_cons, t.apply_bind, t.apply_pure, ih]

theorem apply_stage (ev : Evaluation) (form : Form) :
    t.apply (ev.stage resolve form) =
      ev.stage (fun form body => t.apply (resolve form body)) form := by
  simp only [Evaluation.stage, expand, t.apply_bind, t.apply_pure, t.apply_mapM]

theorem apply_evaluate (template : List Char) :
    t.apply (evaluate resolve template) = evaluate (fun form body => t.apply (resolve form body))
      template := by
  simp only [evaluate, t.apply_foldlM, t.apply_stage]

theorem apply_expandArgs (args : List String) :
    t.apply (expandArgs resolve args) =
      expandArgs (fun form body => t.apply (resolve form body)) args := by
  simp only [expandArgs, t.apply_mapM, t.apply_bind, t.apply_pure, t.apply_evaluate]

end Carrying

namespace Program

variable {m : Type → Type} [Monad m] [LawfulMonad m] (answer : (effect : Effect) → m effect.Answer)

theorem interpret_bind {α β : Type} (p : Program α) (f : α → Program β) :
    (p >>= f).interpret answer = p.interpret answer >>= fun a => (f a).interpret answer := by
  show (bind p f).interpret answer = _
  induction p with
  | done a => simp [interpret]
  | act effect next ih => simp [interpret, ih]

/-- Interpreting a program carries it over to the monad of the answers. -/
def carrying : Carrying Program m where
  apply := interpret answer
  apply_pure _ := rfl
  apply_bind := interpret_bind answer

theorem interpret_perform (effect : Effect) :
    (perform effect).interpret answer = answer effect := by
  show answer effect >>= pure = _
  exact bind_pure _

end Program

end LedgerBench
