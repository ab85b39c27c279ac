import LedgerBench.Proofs.Text.Blank
import LedgerBench.Text.Numeral
import Mathlib.Data.Nat.Digits.Defs
/-!
Numerals read back.

A decimal numeral is read from its front and written from its end, so the reader is first taken
apart at any place in a numeral. What is proved:
  1. `digitsFrom_append`: a numeral is read part by part, each part going on from the value of the
     one before.
  2. `readDigits?_decimal`: the reader gives back the number that a numeral was written for.
  3. `isPlain_decimal`: a written numeral has digits, only digits, and no zero in front unless it is
     the numeral of zero.
  4. `natText_injective`, `zeroPadded_injective`, `intText_injective`: so different numbers have
     different numerals, with zeros in front or without, and with a sign.
  5. `readUnsigned?_eq_some_iff`: what the reader of unsigned numerals accepts, and which number it
     reads.
  6. `readHex?_hexPadded`, `length_hexPadded`: a hexadecimal numeral with zeros in front is read
     back too, and has the width it was written for where the number fits.
-/

namespace LedgerBench.Text

theorem digitsFrom_append (xs ys : List Char) (acc : Nat) :
    digitsFrom acc (xs ++ ys) = (digitsFrom acc xs).bind fun n => digitsFrom n ys := by
  induction xs generalizing acc with
  | nil => rfl
  | cons c rest ih =>
    simp only [List.cons_append, digitsFrom]
    cases digitValue? c with
    | none => rfl
    | some d => exact ih (acc * 10 + d)

theorem digitValue?_digitChar {d : Nat} (h : d < 10) : digitValue? (Nat.digitChar d) = some d := by
  have hall : ∀ d : Fin 10, digitValue? (Nat.digitChar d) = some d.val := by decide
  exact hall ⟨d, h⟩

theorem digitsFrom_decimal (n : Nat) : digitsFrom 0 (decimal n) = some n := by
  -- The last digit stands behind the numeral of a tenth of the number.
  induction n using Nat.strongRecOn with
  | ind n ih =>
    unfold decimal
    by_cases hn : n < 10
    · rw [Nat.toDigits_of_lt_base hn]
      simp only [digitsFrom, digitValue?_digitChar hn, Nat.zero_mul, Nat.zero_add]
    · rw [Nat.toDigits_of_base_le (by omega) (by omega), digitsFrom_append]
      have htenth : digitsFrom 0 (Nat.toDigits 10 (n / 10)) = some (n / 10) :=
        ih (n / 10) (by omega)
      rw [htenth]
      simp only [Option.bind_some, digitsFrom,
        digitValue?_digitChar (Nat.mod_lt n (by omega : 10 > 0))]
      congr 1
      omega

/-- Digits that may be the whole part of a number: at least one, and no zero in front of others. -/
structure IsPlain (digits : List Char) : Prop where
  ne_nil : digits ≠ []
  isDigit : ∀ c ∈ digits, c.isDigit = true
  head : digits.head? ≠ some '0' ∨ digits = ['0']

theorem decimal_ne_nil (n : Nat) : decimal n ≠ [] := Nat.toDigits_ne_nil

theorem isDigit_of_mem_decimal {n : Nat} {c : Char} (h : c ∈ decimal n) : c.isDigit = true :=
  Nat.isDigit_of_mem_toDigits (by omega) (by omega) h

theorem head_decimal {n : Nat} (hn : 0 < n) : (decimal n).head? ≠ some '0' := by
  induction n using Nat.strongRecOn with
  | ind n ih =>
    unfold decimal
    by_cases hlt : n < 10
    · rw [Nat.toDigits_of_lt_base hlt]
      intro h
      have hzero := Nat.digitChar_eq_zero.mp (Option.some.inj h)
      omega
    · have htenth : (Nat.toDigits 10 (n / 10)).head? ≠ some '0' := ih (n / 10) (by omega) (by omega)
      obtain ⟨c, rest, hdigits⟩ :=
        List.exists_cons_of_ne_nil (Nat.toDigits_ne_nil (n := n / 10) (b := 10))
      rw [Nat.toDigits_of_base_le (by omega) (by omega), hdigits]
      rwa [hdigits] at htenth

theorem isPlain_decimal (n : Nat) : IsPlain (decimal n) where
  ne_nil := decimal_ne_nil n
  isDigit _ := isDigit_of_mem_decimal
  head := by
    rcases Nat.eq_zero_or_pos n with rfl | hn
    · exact .inr (Nat.toDigits_zero 10)
    · exact .inl (head_decimal hn)

theorem readDigits?_of_ne_nil {cs : List Char} (h : cs ≠ []) :
    readDigits? cs = digitsFrom 0 cs := by
  cases cs with
  | nil => exact absurd rfl h
  | cons c rest => rfl

theorem readDigits?_decimal (n : Nat) : readDigits? (decimal n) = some n := by
  rw [readDigits?_of_ne_nil (decimal_ne_nil n), digitsFrom_decimal]

theorem digitsFrom_zeros (count : Nat) (digits : List Char) :
    digitsFrom 0 (List.replicate count '0' ++ digits) = digitsFrom 0 digits := by
  have hzeros : digitsFrom 0 (List.replicate count '0') = some 0 := by
    induction count with
    | zero => rfl
    | succ count ih => exact ih
  rw [digitsFrom_append, hzeros]
  rfl

theorem digitsFrom_zeroPadded (width n : Nat) :
    digitsFrom 0 (zeroPadded width n).toList = some n := by
  rw [zeroPadded, String.toList_ofList, padLeft, digitsFrom_zeros, digitsFrom_decimal]

theorem zeroPadded_injective (width : Nat) : Function.Injective (zeroPadded width) := by
  intro m n h
  apply Option.some.inj
  rw [← digitsFrom_zeroPadded width m, h, digitsFrom_zeroPadded]

theorem natText_injective : Function.Injective natText := by
  intro m n h
  apply Option.some.inj
  rw [← digitsFrom_decimal m, ← digitsFrom_decimal n, String.ofList_injective h]

/-- A numeral without a sign has none. -/
theorem natText_ne_minus (m n : Nat) : natText m ≠ "-" ++ natText n := by
  intro h
  have hminus : '-' ∈ decimal m := by
    rw [← String.toList_ofList (l := decimal m), ← natText, h, String.toList_append]
    exact List.mem_append_left _ (List.mem_singleton_self _)
  exact absurd (isDigit_of_mem_decimal hminus) (by decide)

theorem intText_injective : Function.Injective intText := by
  intro i j h
  unfold intText at h
  by_cases hi : i < 0
  · by_cases hj : j < 0
    · rw [if_pos hi, if_pos hj] at h
      have habs : i.natAbs = j.natAbs := natText_injective ((String.append_right_inj _).mp h)
      omega
    · rw [if_pos hi, if_neg hj] at h
      exact absurd h.symm (natText_ne_minus _ _)
  · by_cases hj : j < 0
    · rw [if_neg hi, if_pos hj] at h
      exact absurd h (natText_ne_minus _ _)
    · rw [if_neg hi, if_neg hj] at h
      have habs : i.natAbs = j.natAbs := natText_injective h
      omega

/-! ## What the readers accept -/

/-- Decimal digits, at least one, and the number that they denote. -/
structure Denotes (digits : List Char) (n : Nat) : Prop where
  ne_nil : digits ≠ []
  isDigit : ∀ c ∈ digits, c.isDigit = true
  value : n = Nat.ofDigits 10 (digits.reverse.map fun c => c.toNat - '0'.toNat)

/-- An unsigned numeral: digits with or without a plus sign in front. -/
def IsNumeral (s : List Char) (n : Nat) : Prop :=
  Denotes s n ∨ ∃ digits, s = '+' :: digits ∧ Denotes digits n

theorem digitValue?_eq (c : Char) :
    digitValue? c = if c.isDigit then some (c.toNat - '0'.toNat) else none := by
  have hdigit : ('0' ≤ c ∧ c ≤ '9') ↔ c.isDigit = true := by
    rw [Char.isDigit, Bool.and_eq_true, decide_eq_true_eq, decide_eq_true_eq]
    exact Iff.rfl
  simp only [digitValue?, hdigit]

theorem digitsFrom_eq_some_iff {acc n : Nat} {digits : List Char} :
    digitsFrom acc digits = some n ↔
      (∀ c ∈ digits, c.isDigit = true) ∧
        n = digits.foldl (fun value c => (c.toNat - '0'.toNat) + 10 * value) acc := by
  induction digits generalizing acc with
  | nil =>
    simp only [digitsFrom, Option.some.injEq, List.not_mem_nil, false_implies, implies_true,
      true_and, List.foldl_nil]
    exact eq_comm
  | cons c rest ih =>
    rw [digitsFrom, digitValue?_eq, List.forall_mem_cons, List.foldl_cons]
    by_cases hc : c.isDigit = true
    · have hstep : acc * 10 + (c.toNat - '0'.toNat) = (c.toNat - '0'.toNat) + 10 * acc := by
        rw [Nat.mul_comm, Nat.add_comm]
      rw [if_pos hc, and_assoc, ← hstep]
      exact ih.trans (by rw [eq_true hc, true_and])
    · simp [hc]

theorem readDigits?_eq_some_iff {digits : List Char} {n : Nat} :
    readDigits? digits = some n ↔ Denotes digits n := by
  have hvalue : Nat.ofDigits 10 (digits.reverse.map fun c => c.toNat - '0'.toNat)
      = digits.foldl (fun value c => (c.toNat - '0'.toNat) + 10 * value) 0 := by
    rw [Nat.ofDigits_eq_foldr, List.foldr_map, List.foldr_reverse]
    rfl
  constructor
  · intro h
    have hne : digits ≠ [] := by
      intro hnil
      rw [hnil] at h
      cases h
    rw [readDigits?_of_ne_nil hne, digitsFrom_eq_some_iff] at h
    exact ⟨hne, h.1, h.2.trans hvalue.symm⟩
  · intro h
    rw [readDigits?_of_ne_nil h.ne_nil, digitsFrom_eq_some_iff]
    exact ⟨h.isDigit, h.value.trans hvalue⟩

/-- A sign is no digit, so a numeral has digits or a plus sign in front and not both. -/
theorem not_denotes_plus {digits : List Char} {n : Nat} : ¬ Denotes ('+' :: digits) n := by
  intro h
  have hplus := h.isDigit '+' List.mem_cons_self
  simp at hplus

/-- The reader accepts exactly the numerals below the bound. -/
theorem readUnsigned?_eq_some_iff {bound n : Nat} {s : List Char} :
    readUnsigned? bound s = some n ↔ IsNumeral s n ∧ n < bound := by
  unfold readUnsigned? IsNumeral
  split
  · rename_i digits
    simp [Option.filter_eq_some_iff, readDigits?_eq_some_iff, not_denotes_plus]
  · rename_i hplus
    have hno : ¬ ∃ digits, s = '+' :: digits ∧ Denotes digits n := by
      intro h
      obtain ⟨digits, hs, -⟩ := h
      exact hplus digits hs
    simp [Option.filter_eq_some_iff, readDigits?_eq_some_iff, hno]

theorem isBlank_of_isDigit {c : Char} (h : c.isDigit = true) : isBlank c = false := by
  have hrange : 48 ≤ c.toNat ∧ c.toNat ≤ 57 := by
    rw [Char.isDigit, Bool.and_eq_true, decide_eq_true_eq, decide_eq_true_eq] at h
    exact h
  simp only [isBlank]
  grind

namespace IsNumeral

variable {s : List Char} {n : Nat}

theorem ne_nil (h : IsNumeral s n) : s ≠ [] := by
  rcases h with h | ⟨digits, hs, -⟩
  · exact h.ne_nil
  · rw [hs]
    exact List.cons_ne_nil _ _

theorem not_isBlank (h : IsNumeral s n) : ∀ c ∈ s, isBlank c = false := by
  intro c hc
  rcases h with h | ⟨digits, hs, h⟩
  · exact isBlank_of_isDigit (h.isDigit c hc)
  · rw [hs] at hc
    rcases List.mem_cons.mp hc with hplus | hc
    · rw [hplus]
      decide
    · exact isBlank_of_isDigit (h.isDigit c hc)

end IsNumeral

/-! ## Hexadecimal numerals -/

theorem hexValue?_digitChar {d : Nat} (h : d < 16) : hexValue? (Nat.digitChar d) = some d := by
  have hall : ∀ d : Fin 16, hexValue? (Nat.digitChar d) = some d.val := by decide
  exact hall ⟨d, h⟩

/-- The number that hexadecimal digits denote, one digit after the other. -/
def readHex? (digits : List Char) : Option Nat :=
  digits.foldlM (fun n c => (hexValue? c).map (n * 16 + ·)) 0

theorem readHex?_append (xs ys : List Char) :
    readHex? (xs ++ ys) = (readHex? xs).bind fun n =>
      ys.foldlM (fun n c => (hexValue? c).map (n * 16 + ·)) n := List.foldlM_append

theorem readHex?_toDigits (n : Nat) : readHex? (Nat.toDigits 16 n) = some n := by
  -- As in a decimal numeral, the last digit stands behind the numeral of the quotient.
  induction n using Nat.strongRecOn with
  | ind n ih =>
    by_cases hn : n < 16
    · rw [Nat.toDigits_of_lt_base hn]
      simp [readHex?, hexValue?_digitChar hn]
    · rw [Nat.toDigits_of_base_le (by omega) (by omega), readHex?_append, ih (n / 16) (by omega),
        Option.bind_some]
      have hvalue : n / 16 * 16 + n % 16 = n := by omega
      simp [hexValue?_digitChar (Nat.mod_lt n (by omega : 16 > 0)), hvalue]

theorem readHex?_zeros (count : Nat) (digits : List Char) :
    readHex? (List.replicate count '0' ++ digits) = readHex? digits := by
  have hzero : hexValue? '0' = some 0 := rfl
  have hzeros : readHex? (List.replicate count '0') = some 0 := by
    induction count with
    | zero => rfl
    | succ count ih =>
      rw [List.replicate_succ', readHex?_append, ih]
      simp [hzero]
  rw [readHex?_append, hzeros]
  rfl

theorem readHex?_hexPadded (width n : Nat) : readHex? (hexPadded width n).toList = some n := by
  rw [hexPadded, String.toList_ofList, padLeft, readHex?_zeros, readHex?_toDigits]

theorem length_hexPadded {width n : Nat} (hwidth : 0 < width) (hn : n < 16 ^ width) :
    (hexPadded width n).toList.length = width := by
  have hdigits : (Nat.toDigits 16 n).length ≤ width :=
    (Nat.length_toDigits_le_iff (by omega) hwidth).mpr hn
  rw [hexPadded, String.toList_ofList, padLeft, List.length_append, List.length_replicate]
  omega

end LedgerBench.Text
