import LedgerBench.Text.Cut
import Mathlib.Data.List.Infix
/-!
Where a text is cut.

`cut` walks through a text and remembers what it has passed. What is proved:
  1. `cut_eq_some_iff` and `cut_eq_none_iff`: a text is cut at the leftmost occurrence of the
     pattern, said of the text as a whole, and is not cut exactly where the pattern does not occur.
  2. `cut_append`, `cut_cons`: characters at which the pattern cannot begin are passed over.
  3. `splitPair_eq_some_iff`: a text is cut into a pair at a separator that it has exactly once.
-/

namespace LedgerBench.Text

/-- A pattern stands in a text between two parts, and nowhere further to the left. -/
structure FirstAt (pattern s before rest : List Char) : Prop where
  split : s = before ++ pattern ++ rest
  leftmost : ∀ earlier others, s = earlier ++ pattern ++ others → before.length ≤ earlier.length

theorem FirstAt.unique {pattern s before rest before' rest' : List Char}
    (h : FirstAt pattern s before rest) (h' : FirstAt pattern s before' rest') :
    before = before' ∧ rest = rest' := by
  have hlength : before.length = before'.length :=
    Nat.le_antisymm (h.leftmost _ _ h'.split) (h'.leftmost _ _ h.split)
  have hsame : before ++ (pattern ++ rest) = before' ++ (pattern ++ rest') := by
    rw [← List.append_assoc, ← List.append_assoc, ← h.split, ← h'.split]
  obtain ⟨hbefore, hrest⟩ := List.append_inj hsame hlength
  exact ⟨hbefore, List.append_cancel_left hrest⟩

theorem FirstAt.isInfix {pattern s before rest : List Char} (h : FirstAt pattern s before rest) :
    pattern <:+: s :=
  ⟨before, rest, h.split.symm⟩

/-! ## At the front of a text -/

theorem afterPattern?_append (pattern rest : List Char) :
    afterPattern? pattern (pattern ++ rest) = some rest := by
  induction pattern with
  | nil => rfl
  | cons p ps ih => simpa [afterPattern?] using ih

theorem afterPattern?_eq_some_iff {pattern s rest : List Char} :
    afterPattern? pattern s = some rest ↔ s = pattern ++ rest := by
  constructor
  · exact append_of_afterPattern?
  · rintro rfl
    exact afterPattern?_append pattern rest

theorem afterPattern?_eq_none_iff {pattern s : List Char} :
    afterPattern? pattern s = none ↔ ¬ pattern <+: s := by
  rw [Option.eq_none_iff_forall_ne_some]
  constructor
  · rintro h ⟨rest, rfl⟩
    exact h rest (afterPattern?_eq_some_iff.mpr rfl)
  · intro h rest hrest
    exact h ⟨rest, (afterPattern?_eq_some_iff.mp hrest).symm⟩

/-! ## One character at a time -/

/-- A cut with more in front of the text before the pattern. -/
def pass (passed : List Char) : Option (List Char × List Char) → Option (List Char × List Char) :=
  Option.map fun cut => (passed ++ cut.1, cut.2)

theorem pass_nil (found : Option (List Char × List Char)) : pass [] found = found := by
  cases found <;> rfl

theorem pass_pass (first second : List Char) (found : Option (List Char × List Char)) :
    pass first (pass second found) = pass (first ++ second) found := by
  cases found with
  | none => rfl
  | some found => simp [pass]

theorem cutFrom_eq (pattern passed s : List Char) :
    cutFrom pattern passed s = pass passed.reverse (cut pattern s) := by
  -- What was passed before is a prefix of what the cut returns; the induction is for any such
  -- prefix.
  have general :
      ∀ passed, cutFrom pattern passed s = pass passed.reverse (cutFrom pattern [] s) := by
    induction s with
    | nil =>
      intro passed
      simp only [cutFrom]
      split <;> simp [pass]
    | cons c cs ih =>
      intro passed
      simp only [cutFrom]
      split
      · simp [pass]
      · rw [ih (c :: passed), ih [c], pass_pass]
        simp
  exact general passed

/-- A text that begins with the pattern is cut at its front. -/
theorem cut_pattern_append (pattern rest : List Char) :
    cut pattern (pattern ++ rest) = some ([], rest) := by
  cases hs : pattern ++ rest with
  | nil =>
    obtain ⟨rfl, rfl⟩ := List.append_eq_nil_iff.mp hs
    rfl
  | cons c cs =>
    have hfront := afterPattern?_append pattern rest
    rw [hs] at hfront
    rw [cut, cutFrom, hfront]
    rfl

/-- A character is passed over where the pattern does not begin. -/
theorem cut_cons {pattern : List Char} {c : Char} {cs : List Char} (h : ¬ pattern <+: c :: cs) :
    cut pattern (c :: cs) = pass [c] (cut pattern cs) := by
  rw [cut, cutFrom, afterPattern?_eq_none_iff.mpr h]
  exact cutFrom_eq pattern [c] cs

/-- Characters are passed over with which the pattern does not begin. -/
theorem cut_append {p : Char} {ps passed : List Char} (h : p ∉ passed) (s : List Char) :
    cut (p :: ps) (passed ++ s) = pass passed (cut (p :: ps) s) := by
  induction passed with
  | nil => rw [List.nil_append, pass_nil]
  | cons c cs ih =>
    rw [List.mem_cons, not_or] at h
    obtain ⟨hc, hcs⟩ := h
    have hfront : ¬ p :: ps <+: c :: (cs ++ s) := by
      intro hstarts
      exact hc (List.cons_prefix_cons.mp hstarts).1
    rw [List.cons_append, cut_cons hfront, ih hcs, pass_pass]
    rfl

/-- A text up to a character that it does not hold. -/
theorem cut_singleton {c : Char} {body : List Char} (h : c ∉ body) (rest : List Char) :
    cut [c] (body ++ c :: rest) = some (body, rest) := by
  have hfront : cut [c] (c :: rest) = some ([], rest) := cut_pattern_append [c] rest
  rw [cut_append h, hfront]
  simp [pass]

/-! ## The text as a whole -/

theorem firstAt_nil {pattern s : List Char} (rest : List Char) (h : s = pattern ++ rest) :
    FirstAt pattern s [] rest :=
  ⟨h, fun _ _ _ => Nat.zero_le _⟩

theorem firstAt_cons {pattern cs before rest : List Char} {c : Char}
    (hfront : ¬ pattern <+: c :: cs) :
    FirstAt pattern (c :: cs) (c :: before) rest ↔ FirstAt pattern cs before rest := by
  constructor
  · rintro ⟨hsplit, hleft⟩
    refine ⟨(List.cons.inj hsplit).2, ?_⟩
    intro earlier others h
    have := hleft (c :: earlier) others (congrArg (c :: ·) h)
    simpa using this
  · rintro ⟨hsplit, hleft⟩
    refine ⟨congrArg (c :: ·) hsplit, ?_⟩
    intro earlier others h
    cases earlier with
    | nil => exact absurd ⟨others, h.symm⟩ hfront
    | cons e earlier =>
      have := hleft earlier others (List.cons.inj h).2
      simpa using this

/-- A text is cut at the leftmost occurrence of the pattern. -/
theorem cut_eq_some_iff {pattern s before rest : List Char} :
    cut pattern s = some (before, rest) ↔ FirstAt pattern s before rest := by
  constructor
  · intro h
    induction s generalizing before with
    | nil =>
      have hsplit := append_of_cut h
      obtain ⟨hmore, rfl⟩ := List.append_eq_nil_iff.mp hsplit.symm
      obtain ⟨rfl, rfl⟩ := List.append_eq_nil_iff.mp hmore
      exact firstAt_nil [] rfl
    | cons c cs ih =>
      by_cases hfront : pattern <+: c :: cs
      · obtain ⟨others, hothers⟩ := hfront
        rw [← hothers, cut_pattern_append] at h
        obtain ⟨rfl, rfl⟩ := Prod.mk.inj (Option.some.inj h)
        exact firstAt_nil others hothers.symm
      · rw [cut_cons hfront] at h
        obtain ⟨⟨earlier, others⟩, hcut, hpair⟩ := Option.map_eq_some_iff.mp h
        obtain ⟨rfl, rfl⟩ := Prod.mk.inj hpair
        exact (firstAt_cons hfront).mpr (ih hcut)
  · intro h
    induction s generalizing before with
    | nil =>
      obtain ⟨hmore, rfl⟩ := List.append_eq_nil_iff.mp h.split.symm
      obtain ⟨rfl, rfl⟩ := List.append_eq_nil_iff.mp hmore
      rfl
    | cons c cs ih =>
      by_cases hfront : pattern <+: c :: cs
      · obtain ⟨others, hothers⟩ := hfront
        obtain ⟨rfl, rfl⟩ := h.unique (firstAt_nil others hothers.symm)
        rw [← hothers, cut_pattern_append]
      · cases before with
        | nil => exact absurd ⟨rest, h.split.symm⟩ hfront
        | cons e earlier =>
          obtain ⟨rfl, -⟩ := List.cons.inj h.split
          rw [cut_cons hfront, ih ((firstAt_cons hfront).mp h)]
          rfl

theorem cut_eq_none_iff {pattern s : List Char} : cut pattern s = none ↔ ¬ pattern <:+: s := by
  constructor
  · rintro h ⟨before, rest, hs⟩
    induction s generalizing before with
    | nil =>
      obtain ⟨hmore, rfl⟩ := List.append_eq_nil_iff.mp hs
      obtain ⟨rfl, rfl⟩ := List.append_eq_nil_iff.mp hmore
      cases h
    | cons c cs ih =>
      by_cases hfront : pattern <+: c :: cs
      · obtain ⟨others, hothers⟩ := hfront
        rw [← hothers, cut_pattern_append] at h
        cases h
      · rw [cut_cons hfront] at h
        cases before with
        | nil => exact hfront ⟨rest, hs⟩
        | cons e earlier => exact ih (Option.map_eq_none_iff.mp h) earlier (List.cons.inj hs).2
  · intro h
    rw [Option.eq_none_iff_forall_ne_some]
    rintro ⟨before, rest⟩ hcut
    exact h (cut_eq_some_iff.mp hcut).isInfix

/-- A pattern that occurs in a text stands furthest to the left somewhere. -/
theorem exists_firstAt {pattern s : List Char} (h : pattern <:+: s) :
    ∃ before rest, FirstAt pattern s before rest := by
  have hcut := mt cut_eq_none_iff.mp (not_not_intro h)
  obtain ⟨⟨before, rest⟩, hsome⟩ := Option.ne_none_iff_exists'.mp hcut
  exact ⟨before, rest, cut_eq_some_iff.mp hsome⟩

/-! ## Pairs -/

theorem FirstAt.not_mem {c : Char} {s before rest : List Char} (h : FirstAt [c] s before rest) :
    c ∉ before := by
  intro hmem
  obtain ⟨earlier, others, rfl⟩ := List.append_of_mem hmem
  have hleft := h.leftmost earlier (others ++ [c] ++ rest) (by rw [h.split]; simp)
  simp only [List.length_append, List.length_cons] at hleft
  omega

/-- A text is a pair where it has the separator exactly once. -/
theorem splitPair_eq_some_iff {separator : Char} {s first second : List Char} :
    splitPair separator s = some (first, second) ↔ s = first ++ separator :: second ∧
      s.count separator = 1 := by
  have hcount : (first ++ separator :: second).count separator =
      first.count separator + (second.count separator + 1) := by
    rw [List.count_append, List.count_cons_self]
  unfold splitPair
  constructor
  · intro h
    cases hcut : cut [separator] s with
    | none =>
      rw [hcut] at h
      cases h
    | some found =>
      obtain ⟨before, rest⟩ := found
      simp only [hcut] at h
      by_cases hsecond : rest.contains separator = true
      · rw [if_pos hsecond] at h
        cases h
      · rw [if_neg hsecond] at h
        obtain ⟨rfl, rfl⟩ := Prod.mk.inj (Option.some.inj h)
        have hfirst := cut_eq_some_iff.mp hcut
        have hs : s = before ++ separator :: rest := by rw [hfirst.split]; simp
        have hnot : separator ∉ rest := by simpa using hsecond
        refine ⟨hs, ?_⟩
        rw [hs, hcount, List.count_eq_zero.mpr hfirst.not_mem, List.count_eq_zero.mpr hnot]
  · intro h
    obtain ⟨rfl, hone⟩ := h
    rw [hcount] at hone
    have hfirst : separator ∉ first := List.count_eq_zero.mp (by omega)
    have hsecond : separator ∉ second := List.count_eq_zero.mp (by omega)
    rw [cut_singleton hfirst]
    simp [hsecond]

end LedgerBench.Text
