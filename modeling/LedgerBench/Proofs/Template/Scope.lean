import LedgerBench.Template.Resolve
/-!
The parts of a scope.

Each form reads and changes a part of the scope of its own: `$seq()` the sequence, `$rand()` the
draws, `$set()` and references the variables. What is proved:
  1. `resolve_frame` and `resolve_congr`: an expression changes nothing but its part, and what it
     does there depends on nothing else.
  2. `resolve_comm`: so expressions of different forms may be resolved in either order.
  3. `following_succ`: the numbers that are handed out one after the other.
-/

namespace LedgerBench

namespace Scope

attribute [ext] Scope

theorem resolve_reference (scope : Scope) (body : List Char) :
    (scope.resolve .reference body).2 = scope := by
  unfold resolve
  cases scope.bindings.get? body <;> rfl

theorem resolve_sequence (scope : Scope) (body : List Char) : scope.resolve .sequence body =
    if Text.allBlank body then (.ok (Text.decimal (scope.sequence.last + 1).toNat),
        { scope with sequence := ⟨scope.sequence.last + 1⟩ })
    else (.error (.malformed .sequence body), scope) := rfl

theorem resolve_set (scope : Scope) (body : List Char) : scope.resolve .set body =
    match Text.splitPair ',' body with
    | some (name, value) => (.ok value, { scope with bindings := scope.bindings.set name value })
    | none => (.error (.malformed .set body), scope) := rfl

/-- An expression changes nothing but what its form is about. -/
theorem resolve_frame (scope : Scope) (form : Form) (body : List Char) :
    (form ≠ .sequence → (scope.resolve form body).2.sequence = scope.sequence) ∧
      (form ≠ .random → (scope.resolve form body).2.draws = scope.draws) ∧
      (form ≠ .set → (scope.resolve form body).2.bindings = scope.bindings) ∧
      (scope.resolve form body).2.files = scope.files := by
  cases form <;> simp only [resolve] <;> (try split) <;> simp

/-- What an expression comes to, and what it changes, depends on nothing but what its form is
about. -/
theorem resolve_congr {s t : Scope} (form : Form) (body : List Char)
    (hsequence : form = .sequence → s.sequence = t.sequence)
    (hdraws : form = .random → s.draws = t.draws)
    (hbindings : form = .set ∨ form = .reference → s.bindings = t.bindings)
    (hfiles : s.files = t.files) :
    (s.resolve form body).1 = (t.resolve form body).1 ∧
      (form = .sequence → (s.resolve form body).2.sequence = (t.resolve form body).2.sequence) ∧
      (form = .random → (s.resolve form body).2.draws = (t.resolve form body).2.draws) ∧
      (form = .set → (s.resolve form body).2.bindings = (t.resolve form body).2.bindings) := by
  cases form with
  | sequence => simp only [resolve, hsequence rfl]; split <;> simp [hsequence rfl]
  | random => simp only [resolve, hdraws rfl]; split <;> simp [hdraws rfl]
  | pad => simp [resolve]
  | file => simp only [resolve, hfiles]; split <;> simp
  | set => simp only [resolve, hbindings (.inl rfl)]; split <;> simp [hbindings (.inl rfl)]
  | reference => simp only [resolve, hbindings (.inr rfl)]; split <;> simp

/-- Expressions of different forms do not notice each other, but for a reference that comes after a
stored value. -/
theorem resolve_comm (scope : Scope) {f g : Form} (h : f ≠ g) (hf : f ≠ .reference)
    (hg : g ≠ .reference) (a b : List Char) :
    ((scope.resolve f a).2.resolve g b).1 = (scope.resolve g b).1 ∧
      ((scope.resolve f a).2.resolve g b).2 = ((scope.resolve g b).2.resolve f a).2 := by
  have hframe := scope.resolve_frame f a
  have hframe' := scope.resolve_frame g b
  have hcongr := resolve_congr (s := (scope.resolve f a).2) (t := scope) g b (by grind) (by grind)
    (by grind) (by grind)
  have hcongr' := resolve_congr (s := (scope.resolve g b).2) (t := scope) f a (by grind) (by grind)
    (by grind) (by grind)
  have hlast := (scope.resolve f a).2.resolve_frame g b
  have hlast' := (scope.resolve g b).2.resolve_frame f a
  refine ⟨hcongr.1, ?_⟩
  -- At most one of the two forms is about a given part; where it is the first, the second one
  -- leaves the part to it, and the other way round.
  ext1
  · by_cases hg' : g = .sequence <;> by_cases hf' : f = .sequence <;> grind
  · by_cases hg' : g = .set <;> by_cases hf' : f = .set <;> grind
  · grind
  · by_cases hg' : g = .random <;> by_cases hf' : f = .random <;> grind

end Scope

/-- The numerals of the numbers that follow one that was handed out. -/
def Sequence.following (s : Sequence) (n : Nat) : List (List Char) :=
  (List.range n).map fun i => Text.decimal (s.last + UInt64.ofNat (i + 1)).toNat

theorem Sequence.following_succ (s : Sequence) (n : Nat) :
    s.following (n + 1) = Text.decimal (s.last + 1).toNat :: Sequence.following ⟨s.last + 1⟩ n := by
  rw [following, List.range_succ_eq_map, List.map_cons, List.map_map, following]
  congr 1
  refine List.map_congr_left fun i _ => ?_
  have hsum : s.last + UInt64.ofNat (i + 1 + 1) = s.last + 1 + UInt64.ofNat (i + 1) := by
    rw [UInt64.ofNat_add (i + 1) 1, UInt64.add_assoc, UInt64.add_comm (UInt64.ofNat (i + 1))]
    rfl
  exact congrArg (fun number => Text.decimal number.toNat) hsum

theorem Variables.get?_foldl_set {stored : List (List Char × List Char)} {name : List Char}
    (v : Variables) (h : name ∉ stored.map Prod.fst) :
    (stored.foldl (fun v s => v.set s.1 s.2) v).get? name = v.get? name := by
  induction stored generalizing v with
  | nil => rfl
  | cons s stored ih =>
    rw [List.map_cons, List.mem_cons, not_or] at h
    rw [List.foldl_cons, ih _ h.2, Variables.get?_set, if_neg h.1]

end LedgerBench
