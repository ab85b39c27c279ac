import LedgerBench.Text.Blank
import Mathlib.Data.List.TakeWhile
/-!
Trimmed texts.

What is proved:
  1. `exists_trim`: trimming takes blanks away at either end, and nothing else.
  2. `trim_append`: where a part without blanks stands between blanks, trimming leaves that part.
-/

namespace LedgerBench.Text

theorem trimStart_append {left : List Char} (h : ∀ c ∈ left, isBlank c = true) (s : List Char) :
    trimStart (left ++ s) = trimStart s :=
  List.dropWhile_append_of_pos h

/-- Where the first character is not blank there is nothing to take away. -/
theorem trimStart_of_mem {core : List Char} (h : ∀ c ∈ core, isBlank c = false) (s : List Char)
    (hne : core ≠ []) :
    trimStart (core ++ s) = core ++ s := by
  cases core with
  | nil => exact absurd rfl hne
  | cons c rest =>
    have hc : ¬ isBlank c = true := by simp [h c List.mem_cons_self]
    exact List.dropWhile_cons_of_neg hc

theorem exists_trimStart (s : List Char) :
    ∃ left, s = left ++ trimStart s ∧ ∀ c ∈ left, isBlank c = true :=
  ⟨s.takeWhile isBlank, List.takeWhile_append_dropWhile.symm, fun _ hc => List.mem_takeWhile_imp hc⟩

/-- A text is what is left of it, between blanks. -/
theorem exists_trim (s : List Char) :
    ∃ left right, s = left ++ trim s ++ right ∧ (∀ c ∈ left, isBlank c = true) ∧ ∀ c ∈ right,
      isBlank c = true := by
  obtain ⟨left, hleft, hblank⟩ := exists_trimStart s
  obtain ⟨right, hright, hblank'⟩ := exists_trimStart (trimStart s).reverse
  refine ⟨left, right.reverse, ?_, hblank, fun c hc => hblank' c (List.mem_reverse.mp hc)⟩
  have hmiddle : trimStart s = trim s ++ right.reverse := by
    rw [trim, ← List.reverse_append, ← hright, List.reverse_reverse]
  calc s = left ++ trimStart s := hleft
    _ = left ++ trim s ++ right.reverse := by rw [hmiddle, List.append_assoc]

theorem trim_append {left core right : List Char} (hleft : ∀ c ∈ left, isBlank c = true)
    (hright : ∀ c ∈ right, isBlank c = true) (h : ∀ c ∈ core, isBlank c = false) (hne : core ≠ []) :
    trim (left ++ core ++ right) = core := by
  have hright' : ∀ c ∈ right.reverse, isBlank c = true :=
    fun c hc => hright c (List.mem_reverse.mp hc)
  have hcore : ∀ c ∈ core.reverse, isBlank c = false := fun c hc => h c (List.mem_reverse.mp hc)
  have hend : trimStart core.reverse = core.reverse := by
    have hwhole := trimStart_of_mem hcore [] (mt List.reverse_eq_nil_iff.mp hne)
    rwa [List.append_nil] at hwhole
  rw [trim, List.append_assoc, trimStart_append hleft, trimStart_of_mem h right hne,
    List.reverse_append, trimStart_append hright', hend, List.reverse_reverse]

end LedgerBench.Text
