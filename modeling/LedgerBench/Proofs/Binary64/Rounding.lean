import LedgerBench.Binary64.Basic
/-!
Rounding to binary64.

A count of units is representable if it is a multiple of the gap between the numbers near it. What
is proved:
  1. `roundHalfEven_near`: a quotient rounded to a natural is off by a half at most. So one that is
     less than half above a natural is not rounded to more than it (`roundHalfEven_le`), and one
     that is less than half below it not to less (`le_roundHalfEven`).
  2. `representable_roundUnits`: what a quotient is rounded to is representable.
  3. `roundUnits_le`, `le_roundUnits`: a quotient that is less than half the gap above a
     representable count is not rounded to more than it, and one that is not below it not to less.
     `roundUnits_near`: a rounded quotient is off by half the gap at most.
-/

namespace LedgerBench.Binary64

variable {num den n u : Nat}

/-! ## To naturals -/

/-- A quotient is rounded down where at most half is left, and up where at least half is. -/
theorem roundHalfEven_cases (num den : Nat) :
    (roundHalfEven num den = num / den ∧ 2 * (num % den) ≤ den) ∨
      (roundHalfEven num den = num / den + 1 ∧ den ≤ 2 * (num % den)) := by
  unfold roundHalfEven
  dsimp only
  split
  · next hlt => exact .inl ⟨rfl, Nat.le_of_lt hlt⟩
  · split
    · next hlt => exact .inr ⟨rfl, Nat.le_of_lt hlt⟩
    · rcases Nat.mod_two_eq_zero_or_one (num / den) with heven | hodd
      · exact .inl ⟨by rw [heven, Nat.add_zero], by omega⟩
      · exact .inr ⟨by rw [hodd], by omega⟩

theorem roundHalfEven_near (num : Nat) (hden : 0 < den) :
    2 * num ≤ 2 * (roundHalfEven num den * den) + den ∧
      2 * (roundHalfEven num den * den) ≤ 2 * num + den := by
  have hdiv : num / den * den + num % den = num := Nat.div_add_mod' num den
  have hlt := Nat.mod_lt num hden
  rcases roundHalfEven_cases num den with ⟨heq, hle⟩ | ⟨heq, hle⟩
  · rw [heq]
    omega
  · rw [heq]
    have hup : (num / den + 1) * den = num / den * den + den := Nat.succ_mul _ _
    omega

theorem roundHalfEven_le (hden : 0 < den) (h : 2 * num < 2 * (n * den) + den) :
    roundHalfEven num den ≤ n := by
  obtain ⟨-, hle⟩ := roundHalfEven_near num hden
  refine Nat.le_of_lt_succ (Nat.lt_of_mul_lt_mul_right (a := den) ?_)
  rw [Nat.succ_mul]
  omega

theorem le_roundHalfEven (hden : 0 < den) (h : 2 * (n * den) < 2 * num + den) :
    n ≤ roundHalfEven num den := by
  obtain ⟨hle, -⟩ := roundHalfEven_near num hden
  refine Nat.le_of_lt_succ (Nat.lt_of_mul_lt_mul_right (a := den) ?_)
  rw [Nat.succ_mul]
  omega

theorem roundHalfEven_mul_mul_right (num den : Nat) {c : Nat} (hc : 0 < c) :
    roundHalfEven (num * c) (den * c) = roundHalfEven num den := by
  unfold roundHalfEven
  rw [Nat.mul_div_mul_right _ _ hc, Nat.mul_mod_mul_right]
  simp only [← Nat.mul_assoc, Nat.mul_lt_mul_right hc]

/-! ## Gaps -/

theorem log2_le_log2 {v : Nat} (h : u ≤ v) : u.log2 ≤ v.log2 := by
  by_cases hu : u = 0
  · rw [hu, Nat.log2_zero]
    exact Nat.zero_le _
  · exact (Nat.le_log2 (by omega)).mpr (Nat.le_trans (Nat.log2_self_le hu) h)

theorem spacing_pos (u : Nat) : 0 < spacing u := Nat.two_pow_pos _

/-- The gap near a count below a power of two. -/
theorem spacing_dvd (h : u < 2 ^ (n + 53)) : spacing u ∣ 2 ^ n := by
  refine Nat.pow_dvd_pow 2 ?_
  by_cases hu : u = 0
  · subst hu
    exact Nat.zero_le _
  · have := (Nat.log2_lt hu).mpr h
    omega

theorem spacing_le (h : u < 2 ^ (n + 53)) : spacing u ≤ 2 ^ n :=
  Nat.le_of_dvd (Nat.two_pow_pos n) (spacing_dvd h)

/-- The gap near a count that is not below a power of two. -/
theorem le_spacing (h : 2 ^ (n + 52) ≤ u) : 2 ^ n ≤ spacing u := by
  refine Nat.pow_le_pow_right (by decide) ?_
  have hu : u ≠ 0 := Nat.ne_of_gt (Nat.lt_of_lt_of_le (Nat.two_pow_pos _) h)
  have := (Nat.le_log2 hu).mpr h
  omega

/-- Whether a binary64 number can hold a count of units, its range aside. -/
def Representable (u : Nat) : Prop := spacing u ∣ u

/-- A count of at most 53 bits, times a power of two. -/
theorem representable_mul_two_pow {k : Nat} (hk : k ≤ 2 ^ 53) (e : Nat) :
    Representable (k * 2 ^ e) := by
  rcases Nat.lt_or_eq_of_le hk with hlt | rfl
  · refine Nat.dvd_trans (spacing_dvd ?_) (Nat.dvd_mul_left _ _)
    rw [Nat.pow_add, Nat.mul_comm]
    exact Nat.mul_lt_mul_of_pos_left hlt (Nat.two_pow_pos e)
  · show spacing _ ∣ _
    rw [spacing, ← Nat.pow_add, Nat.log2_two_pow]
    exact Nat.pow_dvd_pow 2 (by omega)

/-- Between a representable count and the next power of two there is room for its gap. -/
theorem Representable.add_spacing_le (h : Representable u) : u + spacing u ≤ 2 ^ (u.log2 + 1) := by
  have hdvd : spacing u ∣ 2 ^ (u.log2 + 1) := Nat.pow_dvd_pow 2 (by omega)
  have hlt : u < 2 ^ (u.log2 + 1) := Nat.lt_log2_self
  have := Nat.le_of_dvd (Nat.sub_pos_of_lt hlt) (Nat.dvd_sub hdvd h)
  omega

/-- Up to the next count that can be held, gaps divide the one near a representable count, and are
smaller only below it. -/
theorem Representable.spacing_cases (h : Representable u) {q : Nat} (hq : q < u + spacing u) :
    spacing q = spacing u ∨ (spacing q ∣ spacing u ∧ q < u) := by
  rcases Nat.lt_or_ge q u with hless | hge
  · exact .inr ⟨Nat.pow_dvd_pow 2 (Nat.sub_le_sub_right (log2_le_log2 (Nat.le_of_lt hless)) 52),
      hless⟩
  · have hlt : q < 2 ^ (u.log2 + 1) := Nat.lt_of_lt_of_le hq h.add_spacing_le
    have hle : q.log2 ≤ u.log2 := by
      by_cases hzero : q = 0
      · rw [hzero, Nat.log2_zero]
        exact Nat.zero_le _
      · exact Nat.le_of_lt_succ ((Nat.log2_lt hzero).mpr hlt)
    exact .inl (by rw [spacing, spacing, Nat.le_antisymm hle (log2_le_log2 hge)])

/-- Between a representable count and a greater one there is a multiple of the gap near that. -/
theorem Representable.exists_multiple (h : Representable u) {q : Nat} (hq : u ≤ q) :
    ∃ j, u ≤ j * spacing q ∧ j * spacing q ≤ q := by
  by_cases hsame : spacing q = spacing u
  · obtain ⟨j, hj⟩ := h
    refine ⟨j, ?_⟩
    rw [hsame, Nat.mul_comm, ← hj]
    exact ⟨Nat.le_refl _, hq⟩
  · -- The gap is greater, so there is a power of two in between.
    have hle := log2_le_log2 hq
    have hne : u.log2 - 52 ≠ q.log2 - 52 := fun heq => hsame (by rw [spacing, spacing, heq])
    have hq0 : q ≠ 0 := by
      rintro rfl
      exact hne (by rw [Nat.le_zero.mp hq])
    have hpow : 2 ^ 52 * spacing q = 2 ^ q.log2 := by
      rw [spacing, ← Nat.pow_add]
      congr 1
      omega
    refine ⟨2 ^ 52, ?_⟩
    rw [hpow]
    have hbelow : u < 2 ^ (u.log2 + 1) := Nat.lt_log2_self
    exact ⟨Nat.le_of_lt (Nat.lt_of_lt_of_le hbelow (Nat.pow_le_pow_right (by decide) (by omega))),
      Nat.log2_self_le hq0⟩

/-! ## To counts that can be held -/

/-- Rounding is to a multiple of the gap, whether that is stretched by the denominator or not. -/
theorem roundUnits_mul (num den : Nat) :
    roundUnits num den * den = roundHalfEven num (den * spacing (num / den)) *
      (den * spacing (num / den)) := by
  rw [roundUnits, Nat.mul_assoc, Nat.mul_comm den]

theorem roundUnits_mul_mul_right (num den : Nat) {c : Nat} (hc : 0 < c) :
    roundUnits (num * c) (den * c) = roundUnits num den := by
  unfold roundUnits
  dsimp only
  rw [Nat.mul_div_mul_right _ _ hc, Nat.mul_right_comm den, roundHalfEven_mul_mul_right _ _ hc]

theorem roundUnits_near (num : Nat) (hden : 0 < den) :
    2 * num ≤ 2 * (roundUnits num den * den) + den * spacing (num / den) ∧
      2 * (roundUnits num den * den) ≤ 2 * num + den * spacing (num / den) := by
  rw [roundUnits_mul]
  exact roundHalfEven_near num (Nat.mul_pos hden (spacing_pos _))

theorem roundUnits_le (hu : Representable u) (hden : 0 < den)
    (h : 2 * num < 2 * (u * den) + den * spacing u) : roundUnits num den ≤ u := by
  have hq : num / den < u + spacing u := by
    have hle : num / den * den ≤ num := Nat.div_mul_le_self _ _
    refine Nat.lt_of_mul_lt_mul_right (a := den) ?_
    rw [Nat.add_mul, Nat.mul_comm (spacing u)]
    omega
  have hgap : spacing (num / den) ∣ u ∧ 2 * num < 2 * (u * den) + den * spacing (num / den) := by
    rcases hu.spacing_cases hq with heq | ⟨hdvd, hless⟩
    · rw [heq]
      exact ⟨hu, h⟩
    · have hlt := (Nat.div_lt_iff_lt_mul hden).mp hless
      exact ⟨Nat.dvd_trans hdvd hu, by omega⟩
  obtain ⟨⟨j, hj⟩, hlt⟩ := hgap
  have hmul : u * den = j * (den * spacing (num / den)) := by
    rw [Nat.mul_comm den, ← Nat.mul_assoc, Nat.mul_comm j, ← hj]
  rw [hmul] at hlt
  have hround := roundHalfEven_le (Nat.mul_pos hden (spacing_pos (num / den))) hlt
  calc roundUnits num den ≤ j * spacing (num / den) := Nat.mul_le_mul_right _ hround
    _ = u := by rw [Nat.mul_comm, ← hj]

theorem le_roundUnits (hu : Representable u) (hden : 0 < den) (h : u * den ≤ num) :
    u ≤ roundUnits num den := by
  obtain ⟨j, huj, hj⟩ := hu.exists_multiple ((Nat.le_div_iff_mul_le hden).mpr h)
  have hle : j * (den * spacing (num / den)) ≤ num := by
    rw [Nat.mul_comm den, ← Nat.mul_assoc]
    exact (Nat.le_div_iff_mul_le hden).mp hj
  have hgap := Nat.mul_pos hden (spacing_pos (num / den))
  have hround : j ≤ roundHalfEven num (den * spacing (num / den)) :=
    le_roundHalfEven hgap (by omega)
  exact Nat.le_trans huj (Nat.mul_le_mul_right _ hround)

/-- What a quotient is rounded to can be held. -/
theorem representable_roundUnits (num : Nat) (hden : 0 < den) :
    Representable (roundUnits num den) := by
  refine representable_mul_two_pow
    (roundHalfEven_le (Nat.mul_pos hden (spacing_pos (num / den))) ?_) _
  have hlt : num / den < 2 ^ 53 * spacing (num / den) := by
    refine Nat.lt_of_lt_of_le Nat.lt_log2_self ?_
    rw [spacing, ← Nat.pow_add]
    exact Nat.pow_le_pow_right (by decide) (by omega)
  have hmul := (Nat.div_lt_iff_lt_mul hden).mp hlt
  rw [Nat.mul_assoc, Nat.mul_comm _ den] at hmul
  omega

end LedgerBench.Binary64
