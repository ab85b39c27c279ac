import LedgerBench.Json.Printer
import LedgerBench.Json.Decode
import LedgerBench.Json.Token
import LedgerBench.Proofs.Text.Numeral
/-!
Number literals.

A number keeps its digits as they are written, so not every value of the type is one that a literal
can stand for. What is proved:
  1. `Number.ofLiteral?_literal`: a well-formed number is read back from its literal, digit for
     digit.
  2. `Number.isNumberChar_of_mem_literal` and `Number.head_literal`: the literal is of number
     characters, and begins with a digit or a minus sign.
  3. `asNat?_ofNat` and `asInt?_ofInt`: the numbers that are written for naturals and integers are
     well-formed, and denote what they were written for.
-/

namespace LedgerBench

namespace Json

/-- No digit stands in front: a run of digits that ends here is whole. -/
def EndsDigits (s : List Char) : Prop := ∀ c ∈ s.head?, c.isDigit = false

theorem spanDigits_append {digits rest : List Char} (h : ∀ c ∈ digits, c.isDigit = true)
    (hrest : EndsDigits rest) :
    spanDigits (digits ++ rest) = (digits, rest) := by
  induction digits with
  | nil =>
    cases rest with
    | nil => rfl
    | cons c rest =>
      have hc : c.isDigit = false := hrest c rfl
      simp [spanDigits, hc]
  | cons c digits ih =>
    obtain ⟨hc, hdigits⟩ := List.forall_mem_cons.mp h
    obtain ⟨htake, hdrop⟩ := Prod.mk.inj (ih hdigits)
    simp [spanDigits, hc, htake, hdrop]

theorem ne_of_isDigit {c d : Char} (hc : c.isDigit = true) (hd : d.isDigit = false) : c ≠ d := by
  rintro rfl
  rw [hc] at hd
  cases hd

namespace Number

/-- Numbers that literals stand for. -/
structure WellFormed (n : Number) : Prop where
  whole : Text.IsPlain n.whole
  fraction : ∀ c ∈ n.fraction, c.isDigit = true
  exponent : ∀ e ∈ n.exponent, e.2 ≠ [] ∧ ∀ c ∈ e.2, c.isDigit = true

def signPart (n : Number) : List Char := if n.negative then ['-'] else []

/-- The digits after the point, with the point; nothing where there are none. -/
def fractionPart (n : Number) : List Char := if n.fraction = [] then [] else '.' :: n.fraction

def exponentPart (n : Number) : List Char :=
  match n.exponent with
  | none => []
  | some (negative, digits) => 'e' :: (if negative then ['-'] else []) ++ digits

theorem literal_eq (n : Number) :
    n.literal = n.signPart ++ (n.whole ++ (n.fractionPart ++ n.exponentPart)) := by
  have hassoc : ∀ a b c d : List Char, a ++ b ++ c ++ d = a ++ (b ++ (c ++ d)) := by
    intro a b c d
    simp only [List.append_assoc]
  exact hassoc n.signPart n.whole n.fractionPart n.exponentPart

/-- The sign in front of a literal, and what follows it. -/
def splitSign (s : List Char) : Bool × List Char :=
  match s with
  | '-' :: rest => (true, rest)
  | _ => (false, s)

/-- The digits after the point, where there is one, and what follows them. -/
def splitFraction? (s : List Char) : Option (List Char × List Char) :=
  match s with
  | '.' :: rest =>
    let (fraction, rest) := spanDigits rest
    if fraction = [] then none else some (fraction, rest)
  | _ => some ([], s)

/-- Reading a literal, part by part. -/
theorem ofLiteral?_eq (s : List Char) :
    ofLiteral? s =
      let (negative, unsigned) := splitSign s
      let (whole, afterWhole) := spanDigits unsigned
      if whole ≠ [] ∧ (whole.head? ≠ some '0' ∨ whole = ['0']) then
        match splitFraction? afterWhole with
        | none => none
        | some (fraction, rest) =>
          (exponentPart? rest).map fun exponent => { negative, whole, fraction, exponent }
      else none := rfl

variable {n : Number}

/-! ## Reading a literal -/

theorem exponentPart?_exponentPart (h : n.WellFormed) :
    exponentPart? n.exponentPart = some n.exponent := by
  unfold exponentPart
  cases he : n.exponent with
  | none => rfl
  | some e =>
    obtain ⟨negative, digits⟩ := e
    obtain ⟨hne, hdigits⟩ := h.exponent _ he
    have hall : digits.all Char.isDigit = true := List.all_eq_true.mpr hdigits
    cases negative with
    | true => simp [exponentPart?, hne, hall]
    | false =>
      -- The first digit is no sign.
      obtain ⟨c, rest, rfl⟩ := List.exists_cons_of_ne_nil hne
      have hc : c.isDigit = true := hdigits c List.mem_cons_self
      have hminus : c ≠ '-' := ne_of_isDigit hc (by decide)
      have hplus : c ≠ '+' := ne_of_isDigit hc (by decide)
      simp only [exponentPart?, List.cons_append, List.nil_append, Bool.false_eq_true, if_false,
        true_or, if_true]
      split
      · rename_i hcons
        exact absurd (List.cons.inj hcons).1 hminus
      · rename_i hcons
        exact absurd (List.cons.inj hcons).1 hplus
      · rw [if_pos ⟨hne, hall⟩]

theorem endsDigits_exponentPart (n : Number) : EndsDigits n.exponentPart := by
  unfold exponentPart
  intro c hc
  cases he : n.exponent with
  | none => simp [he] at hc
  | some e =>
    simp only [he, List.cons_append, List.head?_cons, Option.mem_def, Option.some.injEq] at hc
    rw [← hc]
    decide

theorem endsDigits_fractionPart_append (n : Number) :
    EndsDigits (n.fractionPart ++ n.exponentPart) := by
  unfold fractionPart
  by_cases hf : n.fraction = []
  · rw [if_pos hf, List.nil_append]
    exact n.endsDigits_exponentPart
  · rw [if_neg hf]
    intro c hc
    obtain rfl : '.' = c := Option.some.inj hc
    decide

theorem splitSign_literal (h : n.WellFormed) :
    splitSign n.literal = (n.negative, n.whole ++ (n.fractionPart ++ n.exponentPart)) := by
  rw [literal_eq]
  unfold signPart
  cases n.negative with
  | true => rfl
  | false =>
    -- The first digit is no sign.
    obtain ⟨c, rest, hwhole⟩ := List.exists_cons_of_ne_nil h.whole.ne_nil
    have hc : c.isDigit = true := h.whole.isDigit c (by rw [hwhole]; exact List.mem_cons_self)
    have hminus : c ≠ '-' := ne_of_isDigit hc (by decide)
    simp only [hwhole, Bool.false_eq_true, if_false, List.nil_append, List.cons_append]
    unfold splitSign
    split
    · rename_i hcons
      exact absurd (List.cons.inj hcons).1 hminus
    · rfl

theorem splitFraction?_parts (h : n.WellFormed) :
    splitFraction? (n.fractionPart ++ n.exponentPart) = some (n.fraction, n.exponentPart) := by
  unfold fractionPart
  by_cases hf : n.fraction = []
  · rw [if_pos hf, List.nil_append, hf]
    -- An exponent begins with its letter.
    unfold exponentPart
    cases n.exponent with
    | none => rfl
    | some e => rfl
  · rw [if_neg hf, List.cons_append]
    simp only [splitFraction?, spanDigits_append h.fraction n.endsDigits_exponentPart, if_neg hf]

/-- A well-formed number is read back from its literal. -/
theorem ofLiteral?_literal (h : n.WellFormed) : ofLiteral? n.literal = some n := by
  have hplain : n.whole ≠ [] ∧ (n.whole.head? ≠ some '0' ∨ n.whole = ['0']) :=
    ⟨h.whole.ne_nil, h.whole.head⟩
  rw [ofLiteral?_eq, splitSign_literal h]
  simp only [spanDigits_append h.whole.isDigit n.endsDigits_fractionPart_append, if_pos hplain,
    splitFraction?_parts h, exponentPart?_exponentPart h, Option.map_some]

/-! ## The characters of a literal -/

theorem isNumberChar_of_isDigit {c : Char} (h : c.isDigit = true) : isNumberChar c = true := by
  simp [isNumberChar, h]

theorem isNumberChar_of_mem_literal (h : n.WellFormed) :
    ∀ c ∈ n.literal, isNumberChar c = true := by
  intro c hc
  rw [literal_eq] at hc
  simp only [List.mem_append] at hc
  rcases hc with hc | hc | hc | hc
  · unfold signPart at hc
    cases hneg : n.negative with
    | true =>
      rw [hneg] at hc
      obtain rfl : c = '-' := List.mem_singleton.mp hc
      decide
    | false =>
      rw [hneg] at hc
      cases hc
  · exact isNumberChar_of_isDigit (h.whole.isDigit c hc)
  · unfold fractionPart at hc
    by_cases hf : n.fraction = []
    · rw [if_pos hf] at hc
      cases hc
    · rw [if_neg hf] at hc
      rcases List.mem_cons.mp hc with rfl | hc
      · decide
      · exact isNumberChar_of_isDigit (h.fraction c hc)
  · unfold exponentPart at hc
    cases he : n.exponent with
    | none =>
      rw [he] at hc
      cases hc
    | some e =>
      obtain ⟨negative, digits⟩ := e
      rw [he] at hc
      simp only [List.cons_append, List.mem_cons, List.mem_append] at hc
      rcases hc with rfl | hc | hc
      · decide
      · cases negative with
        | true =>
          obtain rfl : c = '-' := List.mem_singleton.mp hc
          decide
        | false => cases hc
      · exact isNumberChar_of_isDigit ((h.exponent _ he).2 c hc)

theorem head_literal (h : n.WellFormed) :
    ∃ c rest, n.literal = c :: rest ∧ (c.isDigit = true ∨ c = '-') := by
  rw [literal_eq]
  unfold signPart
  cases n.negative with
  | true => exact ⟨'-', _, rfl, .inr rfl⟩
  | false =>
    obtain ⟨c, rest, hwhole⟩ := List.exists_cons_of_ne_nil h.whole.ne_nil
    have hc : c.isDigit = true := h.whole.isDigit c (by rw [hwhole]; exact List.mem_cons_self)
    rw [hwhole]
    exact ⟨c, _, rfl, .inl hc⟩

end Number

/-! ## Naturals and integers -/

/-- A number of digits only. -/
theorem Number.wellFormed_of_decimal (negative : Bool) (n : Nat) :
    Number.WellFormed { negative, whole := Text.decimal n, fraction := [], exponent := none } where
  whole := Text.isPlain_decimal n
  fraction _ h := by cases h
  exponent _ h := by cases h

theorem asNat?_ofNat {n bound : Nat} (h : n < bound) : asNat? bound (ofNat n) = some n := by
  simp [asNat?, ofNat, Number.toNat?, Text.readDigits?_decimal, h]

theorem asInt?_ofInt {i : Int} {bound : Nat} (hlow : -(bound : Int) ≤ i) (hhigh : i < bound) :
    asInt? bound (ofInt i) = some i := by
  have hvalue : Number.toInt? { negative := i < 0, whole := Text.decimal i.natAbs, fraction := [],
                                exponent := none } = some i := by
    simp only [Number.toInt?, Text.readDigits?_decimal, ne_eq, not_true_eq_false, or_self, if_false]
    by_cases hneg : i < 0
    · have habs : i.natAbs ≠ 0 := by omega
      simp only [hneg, decide_true, if_true, habs, if_false, Option.some.injEq]
      omega
    · simp only [hneg, decide_false, Bool.false_eq_true, if_false, Option.some.injEq]
      omega
  simp only [asInt?, ofInt, hvalue]
  simp [hlow, hhigh]

end Json

end LedgerBench
