import LedgerBench.Proofs.Call.Wire
import LedgerBench.Proofs.Json.Grammar
import LedgerBench.Task.Call
/-!
Validation codes and their numbers.

Eight numbers have names, and a code that is kept by number is meant for the others. Codes that are
made from numbers keep to this, but a JSON text may give a number that has a name. What is proved:
  1. `ofNumber_number_iff`: a code is the one that its number stands for exactly where it is
     canonical.
  2. `text_injective`: codes are told apart by their texts.
  3. `read_other_iff`: which texts are read as codes kept by number, those among them that are not
     canonical included.
  4. `determined_of_canonical`: so codes of one number agree in all that is asked of them exactly
     where both or neither are canonical, and codes of different numbers always differ in their
     texts.
  5. `undetermined_of_zero`: a text that is read as a code with the number of the valid one that is
     not valid.
-/

namespace LedgerBench.ValidationCode

open Json

/-- The numbers of the codes with a name. -/
def namedNumbers : List Int := [0, 2, 4, 8, 9, 10, 11, 12]

/-- A code that is kept by number has a number without a name. -/
def Canonical : ValidationCode → Prop
  | other n => n ∉ namedNumbers
  | _ => True

instance : DecidablePred Canonical
  | other n => inferInstanceAs (Decidable (n ∉ namedNumbers))
  | valid | badPayload | badCreatorSignature | badProposalTxid | duplicateTxid
  | endorsementPolicyFailure | mvccReadConflict | phantomReadConflict =>
    isTrue trivial

theorem canonical_iff {v : ValidationCode} : v.Canonical ↔ ¬ ∃ n ∈ namedNumbers, v = other n := by
  cases v <;> simp [Canonical]

/-! ## Numbers -/

theorem ofNumber_of_not_mem {n : Int} (h : n ∉ namedNumbers) : ofNumber n = other n := by
  simp only [namedNumbers, List.mem_cons, List.not_mem_nil, or_false, not_or] at h
  simp only [ofNumber, h, if_false]

theorem number_ofNumber (n : Int) : (ofNumber n).number = n := by
  by_cases h : n ∈ namedNumbers
  · have hnamed : ∀ n ∈ namedNumbers, (ofNumber n).number = n := by decide
    exact hnamed n h
  · rw [ofNumber_of_not_mem h, number]

theorem canonical_ofNumber (n : Int) : (ofNumber n).Canonical := by
  by_cases h : n ∈ namedNumbers
  · have hnamed : ∀ n ∈ namedNumbers, (ofNumber n).Canonical := by decide
    exact hnamed n h
  · rw [ofNumber_of_not_mem h]
    exact h

/-- A canonical code is the one that its number stands for. -/
theorem ofNumber_number_iff {v : ValidationCode} : ofNumber v.number = v ↔ v.Canonical := by
  constructor
  · intro h
    rw [← h]
    exact canonical_ofNumber v.number
  · intro h
    cases v with
    | other n => exact ofNumber_of_not_mem h
    | _ => rfl

/-- Codes of one number are the same if both or neither are canonical. -/
theorem eq_of_number_eq {v w : ValidationCode} (hnumber : v.number = w.number)
    (h : v.Canonical ↔ w.Canonical) : v = w := by
  by_cases hv : v.Canonical
  · rw [← ofNumber_number_iff.mpr hv, hnumber, ofNumber_number_iff.mpr (h.mp hv)]
  · obtain ⟨n, -, rfl⟩ := not_not.mp (mt canonical_iff.mpr hv)
    obtain ⟨m, -, rfl⟩ := not_not.mp (mt canonical_iff.mpr (mt h.mpr hv))
    exact congrArg other hnumber

/-! ## Texts -/

theorem head_text_iff {v : ValidationCode} : v.text.toList.head? = some 'C' ↔ ∃ n, v = other n := by
  cases v with
  | other n =>
    rw [text, String.toList_append]
    simp
  | _ => exact iff_of_false (by decide) (by simp)

theorem ofText?_text {v : ValidationCode} (h : ¬ ∃ n, v = other n) : ofText? v.text = some v := by
  cases v with
  | other n => exact absurd ⟨n, rfl⟩ h
  | _ => rfl

theorem text_injective : Function.Injective text := by
  intro v w h
  -- The first letter tells the texts of numbers from the names.
  by_cases hv : ∃ n, v = other n
  · obtain ⟨m, hw⟩ : ∃ m, w = other m := by rwa [← head_text_iff, ← h, head_text_iff]
    obtain ⟨n, rfl⟩ := hv
    subst hw
    exact congrArg other (Text.intText_injective ((String.append_right_inj _).mp h))
  · have hw : ¬ ∃ n, w = other n := by rwa [← head_text_iff, ← h, head_text_iff]
    apply Option.some.inj
    rw [← ofText?_text hv, h, ofText?_text hw]

/-! ## JSON texts -/

theorem ofText?_ne_other (s : String) (n : Int) : ofText? s ≠ some (other n) := by
  unfold ofText?
  split_ifs <;> simp

/-- A code is read as one that is kept by number from an object that says so, with a number of 32
bits. -/
theorem ofJson?_eq_other_iff {v : Json} {n : Int} :
    ofJson? v = some (other n) ↔ ∃ literal, v = .object [(some "OTHER", .number literal)] ∧
      literal.toInt? = some n ∧
      -(numberBound : Int) ≤ n ∧ n < numberBound := by
  constructor
  · intro h
    unfold ofJson? at h
    split at h
    · rename_i w hchoice
      obtain ⟨m, hm, hsame⟩ := Option.map_eq_some_iff.mp h
      obtain rfl : m = n := other.inj hsame
      cases w with
      | number literal =>
        obtain ⟨hliteral, hbounds⟩ := Option.filter_eq_some_iff.mp hm
        exact ⟨literal, choice?_eq_some_some_iff.mp hchoice, hliteral, of_decide_eq_true hbounds⟩
      | _ => cases hm
    · exact absurd h (ofText?_ne_other _ n)
    · exact absurd h (ofText?_ne_other _ n)
    · cases h
  · rintro ⟨literal, rfl, hliteral, hbounds⟩
    have hnumber : asInt? numberBound (.number literal) = some n :=
      Option.filter_eq_some_iff.mpr ⟨hliteral, decide_eq_true hbounds⟩
    show (asInt? numberBound (.number literal)).map other = some (other n)
    rw [hnumber, Option.map_some]

/-- The tokens of a text are those of an object that gives a number of 32 bits for a code. -/
def GivesNumber (text : String) (n : Int) : Prop :=
  ∃ literal, Token.scan text.toList = some [.openObject, .string (some "OTHER"), .colon,
    .number literal, .closeObject] ∧ literal.toInt? = some n ∧
    -(numberBound : Int) ≤ n ∧ n < numberBound

/-- A text is read as a code that is kept by number where it gives the number, and nowhere else. -/
theorem read_other_iff {text : String} {n : Int} :
    (read? text.toList).bind ofJson? = some (other n) ↔ GivesNumber text n := by
  simp only [Option.bind_eq_some_iff, read?_eq_some_iff, ofJson?_eq_other_iff]
  constructor
  · rintro ⟨_, hscan, literal, rfl, hliteral⟩
    exact ⟨literal, hscan, hliteral⟩
  · rintro ⟨literal, hscan, hliteral⟩
    exact ⟨.object [(some "OTHER", .number literal)], hscan, literal, rfl, hliteral⟩

/-- The codes that are made from a number of 32 bits or read from a JSON text. -/
inductive Obtained : ValidationCode → Prop where
  | ofNumber {n : Int} (h : -(numberBound : Int) ≤ n ∧ n < numberBound) : Obtained (ofNumber n)
  | read {text : String} {v : ValidationCode} (h : (read? text.toList).bind ofJson? = some v) :
    Obtained v

theorem obtained_iff {v : ValidationCode} : Obtained v ↔ v.Fits := by
  constructor
  · intro h
    cases h with
    | @ofNumber n h =>
      unfold Fits
      rw [number_ofNumber]
      exact h
    | @read text v h =>
      cases v with
      | other n =>
        obtain ⟨literal, -, -, hbounds⟩ := read_other_iff.mp h
        exact hbounds
      | _ => exact ⟨by decide, by decide⟩
  · intro h
    exact .read (readsBack_of_wellFormed v.wellFormed_toJson (ofJson?_toJson h)).compact

/-- Two codes agree in all that is asked of them. -/
structure Agree (v w : ValidationCode) : Prop where
  valid : v.isValid = w.isValid
  transient : v.isTransient = w.isTransient
  text : v.text = w.text
  classified : ∀ transaction, CallTask.classify ⟨transaction, v⟩ =
    CallTask.classify ⟨transaction, w⟩

theorem agree_iff {v w : ValidationCode} : Agree v w ↔ v = w := by
  constructor
  · intro h
    exact text_injective h.text
  · rintro rfl
    exact ⟨rfl, rfl, rfl, fun _ => rfl⟩

/-- The codes that can be obtained are those with a number of 32 bits. A code is the one that its
number stands for exactly if it is canonical. Two codes of one number agree exactly if both or
neither are canonical, and two codes of different numbers never have the same text. A code that is
made from a number is canonical, and one that is read is, unless its text gives a number that has a
name. -/
theorem determined_of_canonical (v w : ValidationCode) :
    (Obtained v ↔ v.Fits) ∧
    (ofNumber v.number = v ↔ v.Canonical) ∧
    (v.number = w.number → (Agree v w ↔ (v.Canonical ↔ w.Canonical))) ∧
    (v.number ≠ w.number → v.text ≠ w.text) ∧
    (∀ n, v = ofNumber n → v.Canonical) ∧
    ∀ text, (read? text.toList).bind ofJson? = some v →
      (v.Canonical ↔ ¬ ∃ n ∈ namedNumbers, GivesNumber text n) := by
  refine ⟨obtained_iff, ofNumber_number_iff, fun hnumber => ?_, fun hnumber htext => ?_, ?_,
    fun text h => ?_⟩
  · rw [agree_iff]
    constructor
    · rintro rfl
      exact Iff.rfl
    · exact eq_of_number_eq hnumber
  · exact hnumber (congrArg ValidationCode.number (text_injective htext))
  · rintro n rfl
    exact canonical_ofNumber n
  · simp only [← read_other_iff, h, Option.some.injEq]
    exact canonical_iff

/-- A text with the number of a read conflict, and one with a number that has no name. -/
theorem determined_of_canonical_conflict :
    (read? "\x7b\"OTHER\" : 11\x7d".toList).bind ofJson? = some (other 11) ∧
    ¬ (other 11).Canonical ∧
    mvccReadConflict = ofNumber 11 ∧ mvccReadConflict.Canonical ∧
    (other 11).number = mvccReadConflict.number ∧ ¬ Agree (other 11) mvccReadConflict ∧
    (read? "\x7b\"OTHER\":-11\x7d".toList).bind ofJson? = some (other (-11)) ∧
    ofNumber (other (-11)).number = other (-11) ∧
    (other (-11)).number ≠ (other 11).number ∧ (other (-11)).text ≠ (other 11).text := by
  have hread : (read? "\x7b\"OTHER\" : 11\x7d".toList).bind ofJson? = some (other 11) := rfl
  have hnegative : (read? "\x7b\"OTHER\":-11\x7d".toList).bind ofJson? = some (other (-11)) := rfl
  have hdiffer : (other (-11)).number ≠ (other 11).number := by decide
  obtain ⟨-, -, hagree, -, -, hcanonical⟩ := determined_of_canonical (other 11) mvccReadConflict
  obtain ⟨-, -, -, -, hmade, -⟩ := determined_of_canonical mvccReadConflict mvccReadConflict
  obtain ⟨-, hnumber, -, htext, -, -⟩ := determined_of_canonical (other (-11)) (other 11)
  have hnamed : ¬ (other 11).Canonical :=
    fun h => (hcanonical _ hread).mp h ⟨11, by decide, read_other_iff.mp hread⟩
  have hmeant : mvccReadConflict.Canonical := hmade 11 rfl
  exact ⟨hread, hnamed, rfl, hmeant, rfl, fun h => hnamed (((hagree rfl).mp h).mpr hmeant),
    hnegative, hnumber.mpr (by decide), hdiffer, htext hdiffer⟩

/-- The number zero is read as a code that is not the valid one. -/
theorem undetermined_of_zero :
    (read? "\x7b\"OTHER\":0\x7d".toList).bind ofJson? = some (other 0) ∧ Obtained (other 0) ∧
    Obtained valid ∧
    (other 0).number = valid.number ∧ ofNumber (other 0).number ≠ other 0 ∧
    (other 0).isValid ≠ valid.isValid ∧ (other 0).text ≠ valid.text ∧
    CallTask.classify ⟨"tx-1", other 0⟩ ≠ CallTask.classify ⟨"tx-1", valid⟩ := by
  have hzero : (read? "\x7b\"OTHER\":0\x7d".toList).bind ofJson? = some (other 0) := rfl
  exact ⟨hzero, .read hzero, .ofNumber (n := 0) ⟨by decide, by decide⟩, rfl, by decide, by decide,
    by decide, by decide⟩

end LedgerBench.ValidationCode
