import LedgerBench.Proofs.Task.Group
/-!
Calls that get the same replies.

What becomes of a call depends on its arguments and on what the ledger says to it; who the call is
and what time it is make no difference to it. Two runs are compared by their replies: those of both
are the beginning of one list, so that neither has to be as long as the other from the outset. What
is proved:
  1. `Alike`: two programs that come to the same with the same replies. There is a rule for each
     combinator.
  2. `CallTask.alike_attempt`: the attempts of a call are alike whatever the request.
  3. `Invocation.deeds_eq`: invocations with the same specifications, arguments and replies do the
     same.
-/

namespace LedgerBench

open Program

/-! ## Replies -/

/-- What a ledger said to a submission or to a query. -/
abbrev Said := Reply TxResponse ⊕ Reply QueryResponse

namespace Program

def Exchange.said? : Exchange → Option Said
  | ⟨.submit _, reply⟩ => some (.inl reply)
  | ⟨.query _, reply⟩ => some (.inr reply)
  | _ => none

/-- What the ledger said in some exchanges, in order. -/
def said (xs : List Exchange) : List Said := xs.filterMap Exchange.said?

@[simp] theorem said_append (xs ys : List Exchange) : said (xs ++ ys) = said xs ++ said ys :=
  List.filterMap_append

end Program

/-- Two first items of one list are the same. -/
theorem eq_of_first {α : Type} {a b : α} {l : List α} (ha : [a] <+: l) (hb : [b] <+: l) : a = b :=
  List.singleton_inj.mp ((List.prefix_of_prefix_length_le ha hb (Nat.le_refl 1)).eq_of_length rfl)

/-! ## Programs that come to the same -/

/-- Two programs that come to the same and hear the same, where what each of them hears is the
beginning of one list. -/
def Alike {α : Type} (p q : Program α) : Prop :=
  ∀ xs ys a b answers, Path p xs a → Path q ys b → said xs <+: answers → said ys <+: answers →
    a = b ∧ said xs = said ys

namespace Alike

variable {α β : Type}

theorem pure' (a : α) : Alike (pure a) (pure a) := by
  intro xs ys b c answers hp hq _ _
  obtain ⟨rfl, rfl⟩ := path_pure_iff.mp hp
  obtain ⟨rfl, rfl⟩ := path_pure_iff.mp hq
  exact ⟨rfl, rfl⟩

theorem bind' {p q : Program α} {f g : α → Program β} (h : Alike p q)
    (hf : ∀ a, Alike (f a) (g a)) : Alike (p >>= f) (q >>= g) := by
  intro xs ys c d answers hp hq hxs hys
  obtain ⟨xs, xs', a, rfl, hpa, hfa⟩ := path_bind_iff.mp hp
  obtain ⟨ys, ys', b, rfl, hqb, hgb⟩ := path_bind_iff.mp hq
  rw [said_append] at hxs hys
  obtain ⟨rfl, hsame⟩ := h xs ys a b answers hpa hqb ((List.prefix_append _ _).trans hxs)
    ((List.prefix_append _ _).trans hys)
  -- What comes after the first parts is the beginning of what is left of the list.
  obtain ⟨rest, rfl⟩ := (List.prefix_append _ _).trans hxs
  rw [← hsame] at hys
  obtain ⟨rfl, hmore⟩ := hf a xs' ys' c d rest hfa hgb ((List.prefix_append_right_inj _).mp hxs)
    ((List.prefix_append_right_inj _).mp hys)
  exact ⟨rfl, by rw [said_append, said_append, hsame, hmore]⟩

theorem sleep' (delay : Duration) : Alike (sleep delay) (sleep delay) := by
  intro xs ys a b answers hp hq _ _
  rw [path_perform_iff.mp hp, path_perform_iff.mp hq]
  exact ⟨rfl, rfl⟩

theorem submit' (request other : Request) :
    Alike (perform (.submit request)) (perform (.submit other)) := by
  intro xs ys a b answers hp hq hxs hys
  rw [path_perform_iff.mp hp] at hxs ⊢
  rw [path_perform_iff.mp hq] at hys ⊢
  obtain rfl := Sum.inl.inj (eq_of_first hxs hys)
  exact ⟨rfl, rfl⟩

theorem query' (request other : Request) :
    Alike (perform (.query request)) (perform (.query other)) := by
  intro xs ys a b answers hp hq hxs hys
  rw [path_perform_iff.mp hp] at hxs ⊢
  rw [path_perform_iff.mp hq] at hys ⊢
  obtain rfl := Sum.inr.inj (eq_of_first hxs hys)
  exact ⟨rfl, rfl⟩

theorem retryFrom' {one other : Program (Attempt α)} (h : Alike one other)
    (after : Nat → CallError → AfterFailure) (errors : List CallError) (left : Nat) :
    Alike (retryFrom after sleep one errors left) (retryFrom after sleep other errors left) :=
  retryFrom_rel (R := Alike) pure' bind' sleep' h errors left

end Alike

theorem CallTask.alike_submitAttempt (request other : Request) :
    Alike (submitAttempt request) (submitAttempt other) := by
  refine (Alike.submit' request other).bind' fun reply => ?_
  cases reply <;> exact .pure' _

theorem CallTask.alike_queryAttempt (request other : Request) :
    Alike (queryAttempt request) (queryAttempt other) := by
  refine (Alike.query' request other).bind' fun reply => ?_
  cases reply <;> exact .pure' _

/-- The attempts of a call come to the same with the same replies, whatever they ask. -/
theorem CallTask.alike_attempt (binding : Binding) (request other : Request) :
    Alike (attempt binding request) (attempt binding other) := by
  unfold attempt
  cases binding.mode with
  | submit => exact ((alike_submitAttempt request other).retryFrom' _ [] _).bind' fun r => .pure' _
  | query =>
    show Alike (query _ _ request) (query _ _ other)
    rw [query_eq, query_eq]
    exact ((alike_queryAttempt request other).retryFrom' _ [] _).bind' fun r => .pure' _

/-! ## Invocations that do the same -/

/-- What was done for a call, whichever call it was and whenever. -/
structure Deed where
  spec : CallSpec
  args : List String
  retried : Retried Settled

namespace Invocation

variable {binding : Binding}

def deed (i : Invocation binding) : Deed where
  spec := i.call.spec
  args := i.args
  retried := i.retried

theorem said_exchanges (i : Invocation binding) : said i.exchanges = said i.attempting :=
  i.filterMap_exchanges fun ⟨effect, _⟩ h => by cases effect <;>
    first | rfl | exact absurd trivial h

/-- Invocations of the same specifications with the same arguments do the same, where they hear the
same. -/
theorem deeds_eq {is js : List (Invocation binding)} {answers : List Said}
    (hspecs : (is.map fun i => i.call.spec) = js.map fun j => j.call.spec)
    (hargs : is.map args = js.map args) (his : said (is.flatMap exchanges) <+: answers)
    (hjs : said (js.flatMap exchanges) <+: answers) :
    is.map deed = js.map deed := by
  induction is generalizing js answers with
  | nil =>
    obtain rfl : js = [] := List.map_eq_nil_iff.mp hspecs.symm
    rfl
  | cons i is ih =>
    cases js with
    | nil => cases hspecs
    | cons j js =>
      obtain ⟨hspec, hspecs⟩ := List.cons.inj hspecs
      obtain ⟨harg, hargs⟩ := List.cons.inj hargs
      rw [List.flatMap_cons, said_append] at his hjs
      have hfirst := (List.prefix_append _ _).trans his
      obtain ⟨hretried, hsaid⟩ :=
        CallTask.alike_attempt binding _ _ _ _ _ _ answers i.attempted j.attempted
        (i.said_exchanges ▸ hfirst) (j.said_exchanges ▸ (List.prefix_append _ _).trans hjs)
      rw [← i.said_exchanges, ← j.said_exchanges] at hsaid
      -- The other invocations hear what is left of the answers.
      obtain ⟨rest, rfl⟩ := hfirst
      rw [← hsaid] at hjs
      have hdeeds := ih hspecs hargs ((List.prefix_append_right_inj _).mp his)
        ((List.prefix_append_right_inj _).mp hjs)
      rw [List.map_cons, List.map_cons, hdeeds]
      congr 1
      simp only [deed, hspec, harg, hretried]

end Invocation

end LedgerBench
