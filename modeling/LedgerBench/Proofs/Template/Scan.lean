import LedgerBench.Proofs.Text.Cut
import LedgerBench.Template.Expand
/-!
One pass over a template, as a rewriting of its text.

`expand` scans a text first and resolves what it found afterwards. What is proved:
  1. `Decomposes`: what it is to take a text apart for a form, said with occurrences in the text and
     without a search. Every text can be taken apart in exactly one way (`Decomposes.exists_of`,
     `Decomposes.unique`), and that is the way the scan takes it apart (`Decomposes.scan_eq`).
  2. `expand_of_hit` and `expand_of_tail`: a pass resolves the first expression and then is a pass
     over the text behind it. What was put in the place of the expression is out of its sight.
  3. `run_expand`: a whole pass calls the resolver for each body once, from left to right.
-/

namespace LedgerBench

/-- A text taken apart for a form. Each expression begins at the leftmost opener of what remains and
ends at the first closer after it; the tail holds no whole expression. -/
inductive Decomposes (form : Form) : List Char → List Hit → List Char → Prop where
  | tail {s : List Char} (h : ∀ before inner, Text.FirstAt form.opener s before inner →
    form.closer ∉ inner) :
      Decomposes form s [] s
  | hit {s before inner body rest tail : List Char} {hits : List Hit}
      (opened : Text.FirstAt form.opener s before inner)
        (closed : Text.FirstAt [form.closer] inner body rest)
      (more : Decomposes form rest hits tail) : Decomposes form s ({ before, body } :: hits) tail

namespace Decomposes

variable {form : Form} {s tail tail' : List Char} {hits hits' : List Hit}

theorem unique (h : Decomposes form s hits tail) (h' : Decomposes form s hits' tail') :
    hits' = hits ∧ tail' = tail := by
  induction h generalizing hits' tail' with
  | tail hnone =>
    cases h' with
    | tail _ => exact ⟨rfl, rfl⟩
    | hit opened closed more =>
      exact absurd (closed.isInfix.subset (List.mem_singleton_self _)) (hnone _ _ opened)
  | hit opened closed more ih =>
    cases h' with
    | tail hnone =>
      exact absurd (closed.isInfix.subset (List.mem_singleton_self _)) (hnone _ _ opened)
    | hit opened' closed' more' =>
      obtain ⟨rfl, rfl⟩ := opened.unique opened'
      obtain ⟨rfl, rfl⟩ := closed.unique closed'
      obtain ⟨rfl, rfl⟩ := ih more'
      exact ⟨rfl, rfl⟩

theorem source_eq (h : Decomposes form s hits tail) :
    s = (hits.flatMap fun hit => hit.before ++ form.written hit.body) ++ tail := by
  induction h with
  | tail _ => rfl
  | hit opened closed more ih =>
    rw [opened.split, closed.split, ih]
    simp [Form.written]

end Decomposes

/-! ## The scan -/

namespace Scan

variable {form : Form} {s before inner body rest : List Char}

theorem extend_of_unopened (found : List Hit) (h : Text.cut form.opener s = none) :
    Scan.extend form found s = { hits := found.reverse, tail := s, dangling := none } := by
  rw [Scan.extend]
  split
  · rfl
  · rename_i opened
    cases h.symm.trans opened

theorem extend_of_unclosed (found : List Hit) (h : Text.cut form.opener s = some (before, inner))
    (h' : Text.cut [form.closer] inner = none) :
    Scan.extend form found s =
      { hits := found.reverse, tail := s, dangling := some (form.opener ++ inner) } := by
  rw [Scan.extend]
  split
  · rename_i opened
    cases h.symm.trans opened
  · rename_i opened
    obtain ⟨rfl, rfl⟩ := Prod.mk.inj (Option.some.inj (h.symm.trans opened))
    split
    · rfl
    · rename_i closed
      cases h'.symm.trans closed

theorem extend_of_closed (found : List Hit) (h : Text.cut form.opener s = some (before, inner))
    (h' : Text.cut [form.closer] inner = some (body, rest)) :
    Scan.extend form found s = Scan.extend form ({ before, body } :: found) rest := by
  rw [Scan.extend]
  split
  · rename_i opened
    cases h.symm.trans opened
  · rename_i opened
    obtain ⟨rfl, rfl⟩ := Prod.mk.inj (Option.some.inj (h.symm.trans opened))
    split
    · rename_i closed
      cases h'.symm.trans closed
    · rename_i closed
      obtain ⟨rfl, rfl⟩ := Prod.mk.inj (Option.some.inj (h'.symm.trans closed))
      rfl

/-- The expressions found before are only carried along. -/
theorem extend_append (form : Form) (found more : List Hit) (s : List Char) :
    Scan.extend form (found ++ more) s =
      { Scan.extend form found s with hits := more.reverse ++
                                        (Scan.extend form found s).hits } := by
  fun_induction Scan.extend form found s with
  | case1 found s h => rw [extend_of_unopened _ h, List.reverse_append]
  | case2 found s before inner h h' => rw [extend_of_unclosed _ h h', List.reverse_append]
  | case3 found s before inner h body rest h' ih =>
    rw [extend_of_closed _ h h']
    exact ih

theorem of_unopened (h : Text.cut form.opener s = none) :
    Scan.of form s = { hits := [], tail := s, dangling := none } := extend_of_unopened [] h

theorem of_unclosed (h : Text.cut form.opener s = some (before, inner))
    (h' : Text.cut [form.closer] inner = none) :
    Scan.of form s = { hits := [], tail := s, dangling := some (form.opener ++ inner) } :=
  extend_of_unclosed [] h h'

/-- A scan finds the first expression, and then what a scan of the text behind it finds. -/
theorem of_closed (h : Text.cut form.opener s = some (before, inner))
    (h' : Text.cut [form.closer] inner = some (body, rest)) :
    Scan.of form s =
      { Scan.of form rest with hits := { before, body } :: (Scan.of form rest).hits } := by
  have hrest := extend_append form [] [{ before, body }] rest
  rw [Scan.of, extend_of_closed [] h h']
  exact hrest

end Scan

/-- The part of a tail from its first opener on. -/
def Form.dangling (form : Form) (tail : List Char) : Option (List Char) :=
  (Text.cut form.opener tail).map fun found => form.opener ++ found.2

namespace Decomposes

variable {form : Form} {s tail : List Char} {hits : List Hit}

/-- Every text can be taken apart. -/
theorem exists_of (form : Form) (s : List Char) : ∃ hits tail, Decomposes form s hits tail := by
  -- The induction is on the length of the text, since the text behind an expression is only a part
  -- of it.
  induction hn : s.length using Nat.strongRecOn generalizing s with
  | ind n ih =>
    by_cases h : ∃ before inner, Text.FirstAt form.opener s before inner ∧ form.closer ∈ inner
    · obtain ⟨before, inner, opened, hmem⟩ := h
      have hclosed : Text.cut [form.closer] inner ≠ none := by
        rw [ne_eq, Text.cut_eq_none_iff, not_not]
        exact (List.singleton_infix_iff _ _).mpr hmem
      obtain ⟨⟨body, rest⟩, hcut⟩ := Option.ne_none_iff_exists'.mp hclosed
      have closed := Text.cut_eq_some_iff.mp hcut
      have hlt : rest.length < n := by
        rw [← hn, opened.split, closed.split]
        simp only [List.length_append, List.length_singleton]
        omega
      obtain ⟨hits, tail, more⟩ := ih rest.length hlt rest rfl
      exact ⟨_, tail, .hit opened closed more⟩
    · refine ⟨[], s, .tail fun before inner opened hmem => h ⟨before, inner, opened, hmem⟩⟩

/-- The scan takes a text apart. -/
theorem scan_eq (h : Decomposes form s hits tail) :
    Scan.of form s = { hits, tail, dangling := form.dangling tail } := by
  induction h with
  | @tail s hnone =>
    rw [Form.dangling]
    cases hopened : Text.cut form.opener s with
    | none => exact Scan.of_unopened hopened
    | some found =>
      obtain ⟨before, inner⟩ := found
      refine Scan.of_unclosed hopened (Text.cut_eq_none_iff.mpr fun hin => ?_)
      exact hnone before inner (Text.cut_eq_some_iff.mp hopened)
        ((List.singleton_infix_iff _ _).mp hin)
  | hit opened closed more ih =>
    rw [Scan.of_closed (Text.cut_eq_some_iff.mpr opened) (Text.cut_eq_some_iff.mpr closed), ih]

end Decomposes

/-- What is reported of a tail: nothing, or the expression that it leaves unterminated. -/
def Form.unterminated (form : Form) (tail : List Char) : List ExpressionError :=
  ((form.dangling tail).map (ExpressionError.unterminated form)).toList

theorem unterminated_of_firstAt {form : Form} {tail before inner : List Char}
    (h : Text.FirstAt form.opener tail before inner) :
    form.unterminated tail = [.unterminated form (form.opener ++ inner)] := by
  rw [Form.unterminated, Form.dangling, Text.cut_eq_some_iff.mpr h]
  rfl

theorem unterminated_of_unopened {form : Form} {tail : List Char} (h : ¬ form.opener <:+: tail) :
    form.unterminated tail = [] := by
  rw [Form.unterminated, Form.dangling, Text.cut_eq_none_iff.mpr h]
  rfl

/-! ## A pass -/

theorem filterMap_error?_cons (r : Resolution) (rs : List Resolution) :
    (r :: rs).filterMap Resolution.error? = r.error?.toList ++ rs.filterMap Resolution.error? := by
  cases r <;> rfl

section Pass

variable {m : Type → Type} [Monad m] [LawfulMonad m] {form : Form}
  (resolve : List Char → m Resolution) {s before inner body rest tail : List Char}

theorem expand_of_tail
    (h : ∀ before inner, Text.FirstAt form.opener s before inner → form.closer ∉ inner) :
    expand form resolve s = pure { value := s, diagnostics := form.unterminated s } := by
  have hscan := (Decomposes.tail h).scan_eq
  simp [expand, hscan, Scan.assemble, Form.unterminated]

/-- A pass resolves the first expression, and then it is a pass over the text behind it. -/
theorem expand_of_hit (opened : Text.FirstAt form.opener s before inner)
    (closed : Text.FirstAt [form.closer] inner body rest) :
    expand form resolve s =
      (do
        let r ← resolve body
        let ev ← expand form resolve rest
        pure { value := before ++ form.shown body r ++ ev.value,
               diagnostics := r.error?.toList ++ ev.diagnostics }) := by
  have hscan := Scan.of_closed (Text.cut_eq_some_iff.mpr opened) (Text.cut_eq_some_iff.mpr closed)
  simp only [expand, hscan, List.mapM_cons, bind_assoc, pure_bind]
  refine bind_congr fun r => bind_congr fun rs => ?_
  simp [Scan.assemble, filterMap_error?_cons]

end Pass

/-- A resolver with a state is called for some bodies, for each once and in order. -/
inductive Calls {S : Type} (resolve : List Char → StateM S Resolution) :
    S → List (List Char) → List Resolution → S → Prop where
  | done (state : S) : Calls resolve state [] [] state
  | call {state next later : S} {body : List Char} {bodies : List (List Char)} {r : Resolution}
    {rs : List Resolution}
      (head : (resolve body).run state = (r, next)) (tail : Calls resolve next bodies rs later) :
      Calls resolve state (body :: bodies) (r :: rs) later

/-- A text put together again, with something in the place of each expression that was resolved. -/
def Form.rewritten (form : Form) (hits : List Hit) (rs : List Resolution)
    (tail : List Char) : List Char :=
  (List.zipWith (fun (hit : Hit) r => hit.before ++ form.shown hit.body r) hits rs).flatten ++ tail

section Calls

variable {S : Type} {resolve : List Char → StateM S Resolution} {form : Form} {s tail : List Char}
  {hits : List Hit}

theorem Calls.exists_of (resolve : List Char → StateM S Resolution) (state : S)
    (bodies : List (List Char)) :
    ∃ rs later, Calls resolve state bodies rs later := by
  induction bodies generalizing state with
  | nil => exact ⟨[], state, .done state⟩
  | cons body bodies ih =>
    obtain ⟨rs, later, h⟩ := ih ((resolve body).run state).2
    exact ⟨_, later, .call rfl h⟩

/-- A pass calls the resolver for every body and puts together what it gets. -/
theorem run_expand (h : Decomposes form s hits tail) {state later : S} {rs : List Resolution}
    (hcalls : Calls resolve state (hits.map Hit.body) rs later) :
    (expand form resolve s).run state =
      ({ value := form.rewritten hits rs tail
         diagnostics := rs.filterMap Resolution.error? ++ form.unterminated tail }, later) := by
  induction h generalizing state rs with
  | tail hnone =>
    cases hcalls
    rw [expand_of_tail resolve hnone]
    rfl
  | hit opened closed more ih =>
    cases hcalls with
    | @call _ next _ _ _ r rs head rest =>
      rw [expand_of_hit resolve opened closed, StateT.run_bind, head]
      show (expand form resolve _ >>= fun ev => pure _ : StateM S Evaluation).run next = _
      rw [StateT.run_bind, ih rest]
      simp only [Form.rewritten, List.zipWith_cons_cons, List.flatten_cons, List.append_assoc,
        filterMap_error?_cons]
      rfl

end Calls

/-- One pass rewrites a text in a single scan from the left. The text can be taken apart in exactly
one way, which depends on nothing but the form; for every resolver the pass calls it once for each
body, in order, puts its answers in the places of the expressions it resolved, keeps the others as
they are written, and reports the errors in order and then the expression that the tail leaves
unterminated. -/
theorem expand_eq_rewritten (form : Form) (s : List Char) :
    ∃ hits tail, Decomposes form s hits tail ∧
      (∀ hits' tail', Decomposes form s hits' tail' → hits' = hits ∧ tail' = tail) ∧
      s = (hits.flatMap fun hit => hit.before ++ form.written hit.body) ++ tail ∧
      ∃ ends : List ExpressionError,
        (¬ form.opener <:+: tail ∧ ends = [] ∨
          ∃ before inner, Text.FirstAt form.opener tail before inner ∧
            ends = [.unterminated form (form.opener ++ inner)]) ∧
        ∀ {S : Type} (resolve : List Char → StateM S Resolution) (state : S), ∃ rs later,
          Calls resolve state (hits.map Hit.body) rs later ∧
            (expand form resolve s).run state =
              ({ value := form.rewritten hits rs tail,
                 diagnostics := rs.filterMap Resolution.error? ++ ends }, later) := by
  obtain ⟨hits, tail, h⟩ := Decomposes.exists_of form s
  refine ⟨hits, tail, h, fun _ _ => h.unique, h.source_eq, form.unterminated tail, ?_, ?_⟩
  · by_cases hin : form.opener <:+: tail
    · have hcut := mt Text.cut_eq_none_iff.mp (not_not_intro hin)
      obtain ⟨⟨before, inner⟩, hopened⟩ := Option.ne_none_iff_exists'.mp hcut
      have opened := Text.cut_eq_some_iff.mp hopened
      exact .inr ⟨before, inner, opened, unterminated_of_firstAt opened⟩
    · exact .inl ⟨hin, unterminated_of_unopened hin⟩
  · intro S resolve state
    obtain ⟨rs, later, hcalls⟩ := Calls.exists_of resolve state (hits.map Hit.body)
    exact ⟨rs, later, hcalls, run_expand h hcalls⟩

end LedgerBench
