import LedgerBench.Proofs.Duration
import LedgerBench.Retry.Policy
/-!
The delays of a checked policy.

A factor that is at least one has powers that are at least one, so that no delay falls below the
first one or is negative; and a delay that is less than the longest one as a number of seconds is
not more than it in nanoseconds. What is proved:
  1. `one_le_power`, `mul_of_one_le`: powers and products of numbers that are at least one.
  2. `RetryPolicy.nextDelay?_cases`: a checked policy asks for its longest delay, or for one that
     lies between its first and its longest.
  3. `RetryPolicy.nextDelay?_bounds`: it has a delay after any number of attempts, never more than
     the longest; and, if the first one is below `2^22` seconds, never less than that, which is the
     delay after one attempt.
-/

namespace LedgerBench

open Binary64 Duration

/-! ## Numbers that are at least one -/

namespace Binary64

variable {x y : Binary64} {u : Nat}

theorem one_eq : one = finite false unitsPerOne := by decide +kernel

theorem finite_le_finite {v : Nat} : (finite false u).le (finite false v) = true ↔ u ≤ v := by
  show decide ((u : Int) ≤ v) = true ↔ _
  rw [decide_eq_true_eq, Int.ofNat_le]

theorem one_le_finite : one.le (finite false u) = true ↔ unitsPerOne ≤ u := by
    rw [one_eq, finite_le_finite]

theorem one_le_iff :
    one.le x = true ↔ x = infinite false ∨ ∃ u, unitsPerOne ≤ u ∧ x = finite false u := by
  constructor
  · intro h
    rw [one_eq] at h
    cases x with
    | nan => cases h
    | infinite negative =>
      cases negative with
      | false => exact .inl rfl
      | true => cases h
    | finite negative u =>
      cases negative with
      | false => exact .inr ⟨u, one_le_finite.mp (by rw [one_eq]; exact h), rfl⟩
      | true =>
        have hle : (unitsPerOne : Int) ≤ -(u : Int) := of_decide_eq_true h
        have := unitsPerOne_pos
        omega
  · rintro (rfl | ⟨u, hu, rfl⟩)
    · rw [one_eq]
      rfl
    · exact one_le_finite.mpr hu

/-- A product of positive numbers is infinite, or one that can be held and is not less than any such
number that the exact product is not less than. -/
theorem mul_finite_cases (u v : Nat) :
    (finite false u).mul (finite false v) = infinite false ∨
      ∃ w, (finite false u).mul (finite false v) = finite false w ∧ Representable w ∧
        ∀ r, Representable r → r * unitsPerOne ≤ u * v → r ≤ w := by
  show ofUnitRatio false (u * v) unitsPerOne = _ ∨ ∃ w,
    ofUnitRatio false (u * v) unitsPerOne = _ ∧ _
  unfold ofUnitRatio
  dsimp only
  split
  · exact .inr ⟨_, rfl, representable_roundUnits _ unitsPerOne_pos,
      fun r hr hle => le_roundUnits hr unitsPerOne_pos hle⟩
  · exact .inl rfl

/-- A number that can be held is not rounded below itself by a factor that is at least one. -/
theorem mul_of_one_le (hu : Representable u) (hx : one.le x = true)
    (hfinite : ((finite false u).mul x).isFinite = true) :
    ∃ w, (finite false u).mul x = finite false w ∧ Representable w ∧ u ≤ w := by
  rcases one_le_iff.mp hx with rfl | ⟨v, hv, rfl⟩
  · -- An infinite factor leaves nothing finite.
    unfold mul at hfinite
    dsimp only at hfinite
    split at hfinite <;> cases hfinite
  · rcases mul_finite_cases u v with h | ⟨w, h, hw, hle⟩
    · rw [h] at hfinite
      cases hfinite
    · exact ⟨w, h, hw, hle u hu (Nat.mul_le_mul_left u hv)⟩

theorem one_le_mul (hx : one.le x = true) (hy : one.le y = true) : one.le (x.mul y) = true := by
  have hpos := unitsPerOne_pos
  rw [one_le_iff] at hx hy ⊢
  rcases hx with rfl | ⟨u, hu, rfl⟩
  · rcases hy with rfl | ⟨v, hv, rfl⟩
    · exact .inl rfl
    · exact .inl (if_neg (by omega))
  · rcases hy with rfl | ⟨v, hv, rfl⟩
    · exact .inl (if_neg (by omega))
    · have hone : Representable unitsPerOne := by
        have h := representable_mul_unitsPerOne (n := 1) (by decide)
        rwa [Nat.one_mul] at h
      rcases mul_finite_cases u v with h | ⟨w, h, -, hle⟩
      · exact .inl h
      · exact .inr ⟨w, hle _ hone (Nat.mul_le_mul hu hv), h⟩

/-- Nothing is lost by multiplying a number of up to `2^65` with one. -/
theorem mul_one_eq (hu : Representable u) (h : u ≤ 2 ^ 65 * unitsPerOne) :
    (finite false u).mul one = finite false u := by
  have hunits : roundUnits (u * unitsPerOne) unitsPerOne = u := by
    rw [← Nat.one_mul unitsPerOne, ← Nat.mul_assoc, Nat.mul_one,
      roundUnits_mul_mul_right _ _ unitsPerOne_pos, roundUnits_one hu]
  rw [one_eq]
  show ofUnitRatio false (u * unitsPerOne) unitsPerOne = _
  rw [ofUnitRatio_eq false unitsPerOne_pos (Nat.mul_le_mul_right _ h), hunits]

theorem power_zero (x : Binary64) : x.power 0 = one := by
  unfold power
  rw [powerFrom]
  simp

/-- Repeated squaring keeps both the result and the base at least one. -/
theorem one_le_powerFrom (result base : Binary64) (n : Nat) (hresult : one.le result = true)
    (hbase : one.le base = true) :
    one.le (powerFrom result base n) = true := by
  have hstep (result base : Binary64) (n : Nat) (hresult : one.le result = true)
      (hbase : one.le base = true) :
      one.le (if n % 2 = 1 then mul result base else result) = true := by
    split
    · exact one_le_mul hresult hbase
    · exact hresult
  fun_induction powerFrom result base n with
  | case1 => exact hstep _ _ _ hresult hbase
  | case2 result base n _ hn ih => exact ih (hstep _ _ _ hresult hbase) (one_le_mul hbase hbase)

theorem one_le_power (h : one.le x = true) (n : Nat) : one.le (x.power n) = true :=
  one_le_powerFrom one x n (one_le_iff.mpr (.inr ⟨unitsPerOne, Nat.le_refl _, one_eq⟩)) h

end Binary64

/-! ## Checked policies -/

namespace RetryPolicy

variable {p : RetryPolicy}

theorem check_eq_ok_iff :
    p.check = .ok () ↔
      p.maxAttempts ≠ 0 ∧ p.initialBackoff.nanos ≠ 0 ∧ p.initialBackoff ≤ p.maxBackoff ∧
        one.le p.backoffFactor = true := by
  have hle : p.initialBackoff ≤ p.maxBackoff ↔ ¬ p.maxBackoff < p.initialBackoff := Nat.not_lt.symm
  unfold check
  rw [hle]
  by_cases hattempts : p.maxAttempts = 0 <;> by_cases hinitial : p.initialBackoff.nanos = 0 <;>
    by_cases hmax : p.maxBackoff < p.initialBackoff <;> cases hfactor :
      one.le p.backoffFactor <;> simp [*]

theorem rawDelay_eq (h : p.initialBackoff.nanos < Duration.limit) (attempts : Nat) :
    p.rawDelay attempts = (finite false p.initialBackoff.secondUnits).mul
      (p.backoffFactor.power (min (attempts - 1) maxExponent)) := by
  rw [rawDelay, asSeconds_eq h]

/-- The delay of a checked policy is its longest, or one that is read back from a number of seconds
from its first delay's on. -/
theorem nextDelay?_cases (hcheck : p.check = .ok ()) (hmax : p.maxBackoff.nanos < Duration.limit)
    (attempts : Nat) :
    p.nextDelay? attempts = .ok p.maxBackoff ∨
      ∃ u delay, p.nextDelay? attempts = .ok delay ∧ delay.nanos = nanosOfUnits u ∧
        p.initialBackoff.secondUnits ≤ u ∧
        delay.nanos ≤ p.maxBackoff.nanos := by
  obtain ⟨-, -, hle, hfactor⟩ := check_eq_ok_iff.mp hcheck
  have hinitial : p.initialBackoff.nanos < Duration.limit := Nat.lt_of_le_of_lt hle hmax
  unfold nextDelay?
  dsimp only
  split
  · exact .inl rfl
  · next hno =>
    obtain ⟨hfinite, hcap⟩ : (p.rawDelay attempts).isFinite = true ∧
        p.maxBackoff.asSeconds.le (p.rawDelay attempts) = false := by
      simpa using hno
    rw [rawDelay_eq hinitial] at hfinite hcap ⊢
    obtain ⟨u, hu, hrep, hge⟩ :=
      mul_of_one_le p.initialBackoff.representable_secondUnits (one_le_power hfactor _) hfinite
    rw [hu, asSeconds_eq hmax] at hcap
    have hless : u < p.maxBackoff.secondUnits := by
      rwa [← Bool.not_eq_true, finite_le_finite, Nat.not_le] at hcap
    have hnanos : nanosOfUnits u ≤ p.maxBackoff.nanos := nanosOfUnits_le_of_lt hrep hless
    exact .inr ⟨u, ⟨nanosOfUnits u⟩, by rw [hu, ofSeconds?_finite (Nat.lt_of_le_of_lt hnanos hmax)],
      rfl, hge, hnanos⟩

/-- The delay after one attempt is the first one, and so is that after none. -/
theorem nextDelay?_first (hcheck : p.check = .ok ()) (hmax : p.maxBackoff.nanos < Duration.limit)
    (hsecs : p.initialBackoff.secs < 2 ^ 22) {attempts : Nat} (h : attempts ≤ 1) :
    p.nextDelay? attempts = .ok p.initialBackoff := by
  obtain ⟨-, -, hle, -⟩ := check_eq_ok_iff.mp hcheck
  have hinitial : p.initialBackoff.nanos < Duration.limit := Nat.lt_of_le_of_lt hle hmax
  have hunits := secondUnits_le_of_secs_lt hsecs
  have hraw : p.rawDelay attempts = finite false p.initialBackoff.secondUnits := by
    rw [rawDelay_eq hinitial, Nat.sub_eq_zero_of_le h, Nat.zero_min, power_zero]
    exact mul_one_eq p.initialBackoff.representable_secondUnits (by omega)
  unfold nextDelay?
  dsimp only
  rw [hraw, asSeconds_eq hmax]
  split
  · next hcap =>
    -- The longest delay is the first one.
    rw [isFinite, Bool.not_true, Bool.false_or, finite_le_finite] at hcap
    have heq : p.maxBackoff.nanos = p.initialBackoff.nanos :=
      Nat.le_antisymm (nanos_le_of_secondUnits_le hsecs hcap) hle
    exact congrArg Except.ok (congrArg Duration.mk heq)
  · have hnanos := nanosOfUnits_secondUnits hsecs
    rw [ofSeconds?_finite (by omega), hnanos]

/-- A checked policy whose longest delay has 64 bits of seconds has a delay after any number of
attempts, and it is never more than the longest one. Where the first delay is below `2^22` seconds
it is never less than that, and it is that after no attempt and after one. -/
theorem nextDelay?_bounds (hcheck : p.check = .ok ()) (hmax : p.maxBackoff.nanos < Duration.limit)
    (attempts : Nat) :
    ∃ delay, p.nextDelay? attempts = .ok delay ∧ delay ≤ p.maxBackoff ∧
      (p.initialBackoff < Duration.ofSecs (2 ^ 22) →
        p.initialBackoff ≤ delay ∧ p.nextDelay? 0 = .ok p.initialBackoff ∧
          p.nextDelay? 1 = .ok p.initialBackoff) := by
  obtain ⟨-, -, hle, -⟩ := check_eq_ok_iff.mp hcheck
  have hsecs : p.initialBackoff < Duration.ofSecs (2 ^ 22) → p.initialBackoff.secs < 2 ^ 22 :=
    fun hless => (Nat.div_lt_iff_lt_mul (by decide)).mpr hless
  have hfirst := fun hless => And.intro (nextDelay?_first hcheck hmax (hsecs hless) (Nat.zero_le 1))
    (nextDelay?_first hcheck hmax (hsecs hless) (Nat.le_refl 1))
  rcases nextDelay?_cases hcheck hmax attempts with h | ⟨u, delay, h, hread, hge, hnanos⟩
  · exact ⟨_, h, Nat.le_refl _, fun hless => ⟨hle, hfirst hless⟩⟩
  · refine ⟨delay, h, hnanos, fun hless => ⟨?_, hfirst hless⟩⟩
    -- The delay is read back as no less than the first one, which is off by less than half a
    -- nanosecond.
    obtain ⟨hlow, -⟩ := secondUnits_near (hsecs hless)
    have hunits := Nat.mul_le_mul_right perSecond hge
    rw [le_iff, hread]
    exact le_nanosOfUnits (by omega)

/-- A policy that doubles its delay up to the longest duration there is. -/
def boundless : RetryPolicy := { maxBackoff := ⟨Duration.limit - 1⟩ }

/-- As a number of seconds the longest delay is out of the range of durations, and the delay after
65 attempts would be that number. -/
theorem nextDelay?_bounds_boundless :
    boundless.check = .ok () ∧ boundless.maxBackoff.nanos < Duration.limit ∧
      boundless.initialBackoff < Duration.ofSecs (2 ^ 22) ∧
      boundless.maxBackoff.asSeconds = Binary64.ofNat (2 ^ 64) ∧
      boundless.rawDelay 65 = Binary64.ofNat (2 ^ 64) ∧
      ∃ delay, boundless.nextDelay? 65 = .ok delay ∧ delay ≤ boundless.maxBackoff ∧
        boundless.initialBackoff ≤ delay ∧
        boundless.nextDelay? 0 = .ok boundless.initialBackoff ∧
          boundless.nextDelay? 1 = .ok boundless.initialBackoff := by
  have hcheck : boundless.check = .ok () := check_eq_ok_iff.mpr (by decide +kernel)
  have hmax : boundless.maxBackoff.nanos < Duration.limit := by decide +kernel
  have hless : boundless.initialBackoff < Duration.ofSecs (2 ^ 22) := by decide +kernel
  obtain ⟨delay, hdelay, hle, hfirst⟩ := nextDelay?_bounds hcheck hmax 65
  exact ⟨hcheck, hmax, hless, by decide +kernel, by decide +kernel, delay, hdelay,
    hle, hfirst hless⟩

end RetryPolicy

end LedgerBench
