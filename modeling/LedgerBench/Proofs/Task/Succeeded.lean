import LedgerBench.Proofs.Task.Endorsed
import LedgerBench.Proofs.Task.Heard
/-!
Queries that succeed.

Whether a query succeeds is seen from the last thing that the ledger said to it. What is proved:
  1. `ok_of_retryFrom`: a loop whose last attempt succeeds comes to what that attempt came to. The
     policy is not asked any more.
  2. `Invocation.ok_iff`: the attempts of a query come to a success exactly where the last reply is
     a response that the handlers accept.
  3. `CallTask.succeeds_iff`: so an invocation reports an outcome without an error in just this
     case, whether it returns or panics.
-/

namespace LedgerBench

open Program

/-! ## Loops -/

/-- A loop whose last attempt succeeds comes to what that attempt came to. -/
theorem ok_of_retryFrom {α : Type} {one : Program (Attempt α)}
    {after : Nat → CallError → AfterFailure} (ho : IsAttempt one) {last : Exchange} {value : α}
    (hlast : ∀ a, Path one [last] a → a = .ok value) {errors : List CallError} {left : Nat}
    {xs : List Exchange} {r : Retried α} (h : Path (retryFrom after sleep one errors left) xs r)
    (hxs : xs.getLast? = some last) : r.result = .ok value := by
  -- An attempt with nothing behind it is the last one, so it did not fail.
  have settled : ∀ ys a, Path one ys a → ys.getLast? = some last → a = .ok value := by
    intro ys a hone hys
    obtain ⟨x, rfl, -⟩ := ho ys a hone
    obtain rfl : x = last := Option.some.inj hys
    exact hlast a hone
  induction left generalizing errors xs with
  | zero =>
    obtain ⟨a, hone, rfl⟩ := path_bind_pure_iff.mp h
    exact settled xs a hone hxs
  | succ left ih =>
    rw [retryFrom] at h
    obtain ⟨ys, zs, a, rfl, hone, hend⟩ := path_bind_iff.mp h
    have hfailed : ∀ e, a = .failed e → zs ≠ [] := by
      rintro e rfl rfl
      rw [List.append_nil] at hxs
      cases settled ys _ hone hxs
    cases a with
    | ok found =>
      obtain ⟨rfl, rfl⟩ := path_pure_iff.mp hend
      rw [List.append_nil] at hxs
      exact settled ys _ hone hxs
    | panicked reason =>
      obtain ⟨rfl, rfl⟩ := path_pure_iff.mp hend
      rw [List.append_nil] at hxs
      exact settled ys _ hone hxs
    | failed e =>
      cases hafter : after (errors.length + 1) e with
      | settle =>
        simp only [hafter] at hend
        exact absurd (path_pure_iff.mp hend).1 (hfailed e rfl)
      | panic reason =>
        simp only [hafter] at hend
        exact absurd (path_pure_iff.mp hend).1 (hfailed e rfl)
      | again delay =>
        simp only [hafter] at hend
        obtain ⟨_, ws, rfl, hrest⟩ := path_perform_bind_iff.mp hend
        obtain ⟨earlier, x, ended, t⟩ := path_retryFrom ho hrest
        -- The last exchange is one of the rest of the loop, which has at least one.
        refine ih hrest ?_
        rw [t.exchanges, List.getLast?_concat]
        rwa [t.exchanges, ← List.cons_append, ← List.append_assoc, List.getLast?_concat] at hxs

/-! ## Queries -/

namespace Invocation

variable {binding : Binding} (i : Invocation binding)

theorem path_query (hmode : binding.mode = .query) :
    Path (CallTask.query binding.policy binding.handlers (i.call.request binding i.args))
      i.attempting i.retried := by
  have hattempted := i.attempted
  unfold CallTask.attempt at hattempted
  rwa [hmode] at hattempted

/-- The last thing that an invocation of a query hears is the reply to its last query. -/
theorem exists_last (hmode : binding.mode = .query) :
    ∃ earlier request reply, i.attempting = earlier ++ [⟨.query request, reply⟩] ∧
      (said i.exchanges).getLast? = some (.inr reply) := by
  obtain ⟨earlier, last, ended, s, t, -⟩ := CallTask.path_query (i.path_query hmode)
  obtain ⟨reply, hlast, -⟩ := CallTask.path_queryAttempt_iff.mp t.path
  obtain rfl : last = ⟨.query (i.call.request binding i.args), reply⟩ := List.singleton_inj.mp hlast
  refine ⟨earlier, _, reply, t.exchanges, ?_⟩
  have hone : said [⟨.query (i.call.request binding i.args), reply⟩] = [.inr reply] := rfl
  rw [i.said_exchanges, t.exchanges, said_append, hone, List.getLast?_concat]

/-- The attempts of a query come to a success exactly where the last reply is a response that the
handlers accept. -/
theorem ok_iff (hmode : binding.mode = .query) {reply : Reply QueryResponse}
    (hlast : (said i.exchanges).getLast? = some (.inr reply)) :
    (∃ settled, i.retried.result = .ok settled) ↔ ∃ response, reply = .answered response ∧
      binding.handlers.judge response = .accepted := by
  obtain ⟨earlier, request, reply', hattempting, hlast'⟩ := i.exists_last hmode
  obtain rfl : reply = reply' := Sum.inr.inj (Option.some.inj (hlast.symm.trans hlast'))
  constructor
  · rintro ⟨settled, hok⟩
    obtain ⟨before, response, hbefore, hjudged⟩ :=
      CallTask.delivered_of_query (i.path_query hmode) hok
    rw [hattempting] at hbefore
    obtain ⟨-, hsame⟩ := List.append_inj' hbefore rfl
    cases List.singleton_inj.mp hsame
    exact ⟨response, rfl, (CallTask.judged_ok hjudged).1⟩
  · rintro ⟨response, rfl, haccepted⟩
    have hpath := i.path_query hmode
    rw [CallTask.query_eq] at hpath
    obtain ⟨s, hloop, hr⟩ := path_bind_pure_iff.mp hpath
    have hanswered : ∀ a, Path (CallTask.queryAttempt (i.call.request binding i.args))
        [⟨.query request, .answered response⟩] a → a = .ok response := by
      intro a hone
      obtain ⟨reply, hsame, rfl⟩ := CallTask.path_queryAttempt_iff.mp hone
      cases List.singleton_inj.mp hsame
      rfl
    have hok : s.result = .ok response :=
      ok_of_retryFrom (isAttempt_queryAttempt _) hanswered hloop
        (by rw [hattempting, List.getLast?_concat])
    refine ⟨{ payload := some response.payload }, ?_⟩
    show i.retried.result = _
    rw [hr, Retried.andThen, hok]
    show CallTask.settledAs response (binding.handlers.judge response) = _
    rw [haccepted]
    rfl

end Invocation

namespace CallTask

/-- An invocation of a query hears something, and reports an outcome without an error exactly where
the last thing it hears is a response that the handlers accept. -/
theorem succeeds_iff {binding : Binding} (hmode : binding.mode = .query) {c left : CallTask}
    {xs : List Exchange} {ending : Ending} (h : Path (c.invoke binding) xs (ending, left)) :
    ∃ reply, (said xs).getLast? = some (.inr reply) ∧
      ((∃ o, .completed o ∈ events xs ∧ o.error = none) ↔
        ∃ response, reply = .answered response ∧ binding.handlers.judge response = .accepted) := by
  rcases path_invoke h with ⟨i, -, hreturned, rfl, -⟩ | ⟨reason, -, hevents, habandon⟩
  · obtain ⟨-, -, reply, -, hlast⟩ := i.exists_last hmode
    refine ⟨reply, hlast, ?_⟩
    rw [← i.ok_iff hmode hlast, i.events_eq]
    constructor
    · rintro ⟨o, ho, herror⟩
      obtain rfl : o = i.outcome := by simpa [Invocation.reports] using ho
      obtain ⟨settled, hok, -⟩ := i.settled_of_error_none herror
      exact ⟨settled, hok⟩
    · rintro ⟨settled, hok⟩
      refine ⟨i.outcome, by simp [Invocation.reports], ?_⟩
      simp only [Invocation.outcome, outcome, Retried.reported, hok]
  · -- Nothing was reported but the start. Abandoning makes the invocation whole, and nothing more
    -- is heard.
    obtain ⟨ys, later, hpath⟩ := exists_path (left.abandon reason)
    obtain ⟨i, -, ⟨cause, hpanicked⟩, hxs, -⟩ := habandon ys later hpath
    obtain ⟨-, -, reply, -, hlast⟩ := i.exists_last hmode
    have hquiet : said ys = [] := said_of_not_isTry (only_complete _ _ _ ys later hpath)
    have hsaid : said i.exchanges = said xs := by rw [← hxs, said_append, hquiet, List.append_nil]
    refine ⟨reply, hsaid ▸ hlast, ?_⟩
    rw [← i.ok_iff hmode hlast, hevents]
    constructor
    · rintro ⟨o, ho, -⟩
      simp at ho
    · rintro ⟨settled, hok⟩
      cases hok.symm.trans hpanicked

end CallTask

end LedgerBench
