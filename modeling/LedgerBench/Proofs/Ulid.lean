import LedgerBench.Ulid
/-!
Identifiers read back.

The text of an identifier has 26 digits of five bits each, two bits more than the identifier has;
the first digit is written with those two as zeros. What is proved:
  1. `digitsFrom?_digits`: so many digits denote the number they were written for, reduced to what
     they can hold.
  2. `ofText?_text`: an identifier is read back from its text.
-/

namespace LedgerBench.Ulid

theorem digitValue?_digitChar {d : Nat} (h : d < 32) : digitValue? (digitChar d) = some d := by
  have hall : ∀ d : Fin 32, digitValue? (digitChar d) = some d.val := by decide +kernel
  exact hall ⟨d, h⟩

theorem length_digits (count n : Nat) : (digits count n).length = count := by
  induction count generalizing n with
  | zero => rfl
  | succ count ih => rw [digits, List.length_append, ih, List.length_singleton]

theorem digitsFrom?_append (xs ys : List Char) (acc : Nat) :
    digitsFrom? acc (xs ++ ys) = (digitsFrom? acc xs).bind fun n => digitsFrom? n ys := by
  induction xs generalizing acc with
  | nil => rfl
  | cons c rest ih =>
    simp only [List.cons_append, digitsFrom?]
    cases digitValue? c with
    | none => rfl
    | some d => exact ih (acc * 32 + d)

theorem digitsFrom?_digits (count n : Nat) :
    digitsFrom? 0 (digits count n) = some (n % 32 ^ count) := by
  induction count generalizing n with
  | zero => rw [Nat.pow_zero, Nat.mod_one, digits, digitsFrom?]
  | succ count ih =>
    rw [digits, digitsFrom?_append, ih, Option.bind_some]
    simp only [digitsFrom?, digitValue?_digitChar (Nat.mod_lt n (by omega : 32 > 0)),
      Option.some.injEq]
    -- The last digit and the digits before it make up the remainder.
    rw [Nat.pow_succ, Nat.mul_comm (32 ^ count) 32, Nat.mod_mul, Nat.mul_comm, Nat.add_comm]

/-- An identifier is read back from its text. -/
theorem ofText?_text (u : Ulid) : ofText? u.text = some u := by
  have hbits : u.bits.toNat < 32 ^ width := by
    have hlt := u.bits.isLt
    have hwidth : 32 ^ width = 2 ^ 130 := by decide
    omega
  have hlength : u.text.toList.length = width := by rw [text, String.toList_ofList, length_digits]
  have hdigits : digitsFrom? 0 u.text.toList = some u.bits.toNat := by
    rw [text, String.toList_ofList, digitsFrom?_digits, Nat.mod_eq_of_lt hbits]
  rw [ofText?, if_pos hlength, hdigits, Option.map_some, BitVec.ofNat_toNat, BitVec.setWidth_eq]

end LedgerBench.Ulid
