/-!
Cutting a text at the first occurrence of a pattern.

`cut pattern s` is the text before the leftmost occurrence of `pattern` and the text after it. It is
the only search the library does: an expression's opener and closer, and the comma of a pair, are
all found by it. Its laws: what `cut` returns puts the text together again (`append_of_cut`), and
the pieces are shorter than the text (`length_of_cut`).
-/

namespace LedgerBench.Text

/-- What follows `pattern` at the very front of `s`, if it stands there. -/
def afterPattern? : List Char → List Char → Option (List Char)
  | [], s => some s
  | _ :: _, [] => none
  | p :: ps, c :: cs => if p = c then afterPattern? ps cs else none

/-- A cut in progress, with the characters already passed over held in reverse. -/
def cutFrom (pattern passed : List Char) : List Char → Option (List Char × List Char)
  | [] => if pattern = [] then some (passed.reverse, []) else none
  | c :: cs =>
    match afterPattern? pattern (c :: cs) with
    | some rest => some (passed.reverse, rest)
    | none => cutFrom pattern (c :: passed) cs

/-- The text before the leftmost occurrence of `pattern` in `s`, and the text after it. -/
def cut (pattern s : List Char) : Option (List Char × List Char) := cutFrom pattern [] s

/-- The two halves of a text that holds `separator` exactly once. -/
def splitPair (separator : Char) (s : List Char) : Option (List Char × List Char) :=
  match cut [separator] s with
  | some (first, second) => if second.contains separator then none else some (first, second)
  | none => none

theorem append_of_afterPattern? {pattern s rest : List Char}
    (h : afterPattern? pattern s = some rest) : s = pattern ++ rest := by
  induction pattern generalizing s with
  | nil => simpa [afterPattern?] using h
  | cons p ps ih =>
    cases s with
    | nil => simp [afterPattern?] at h
    | cons c cs =>
      by_cases hpc : p = c
      · simp only [afterPattern?, hpc, if_true] at h
        simp [hpc, ih h]
      · simp [afterPattern?, hpc] at h

theorem append_of_cutFrom {pattern passed s before rest : List Char}
    (h : cutFrom pattern passed s = some (before, rest)) :
    passed.reverse ++ s = before ++ pattern ++ rest := by
  induction s generalizing passed with
  | nil =>
    by_cases hp : pattern = []
    · simp only [cutFrom, hp, if_true, Option.some.injEq, Prod.mk.injEq] at h
      simp [hp, h.1.symm, h.2.symm]
    · simp [cutFrom, hp] at h
  | cons c cs ih =>
    simp only [cutFrom] at h
    split at h
    · rename_i found hf
      simp only [Option.some.injEq, Prod.mk.injEq] at h
      rw [append_of_afterPattern? hf, h.1, h.2]
      simp
    · have := ih h
      simpa using this

/-- The pieces and the pattern between them are the text. -/
theorem append_of_cut {pattern s before rest : List Char}
    (h : cut pattern s = some (before, rest)) : s = before ++ pattern ++ rest := by
  simpa using append_of_cutFrom h

theorem length_of_cut {pattern s before rest : List Char}
    (h : cut pattern s = some (before, rest)) :
    s.length = before.length + pattern.length + rest.length := by
  rw [append_of_cut h]; simp [Nat.add_assoc]

end LedgerBench.Text
