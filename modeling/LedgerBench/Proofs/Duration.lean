import LedgerBench.Duration
import LedgerBench.Proofs.Binary64.Rounding
/-!
Durations as binary64 numbers of seconds, and divided by a count.

The number of seconds is rounded twice: the fraction when it is divided out, and its sum with the
whole seconds. What is proved:
  1. `asSeconds_eq`: the number is finite, with `secondUnits` units.
  2. `secondUnits_le`: rounding twice does not take a duration past a number that can be held and is
     not less than it, as rounding once would not.
  3. `secondUnits_near`: below `2^22` seconds the number is off by less than half a nanosecond, so
     that the duration can be read back (`nanosOfUnits_secondUnits`).
  4. `nanosOfUnits_le_of_lt`: what is less than a duration as a number of seconds is not read back
     as more.
  5. `dividedBy?_eq`: division by a count is division of the nanoseconds, rounded down.
-/

namespace LedgerBench

open Binary64

/-! ## Units -/

namespace Binary64

/-- The gap between the numbers from a half to one, in units. -/
def gapBelowOne : Nat := 2 ^ 1021

theorem unitsPerOne_eq : unitsPerOne = 2 ^ 53 * gapBelowOne := by decide +kernel

theorem unitsPerOne_pos : 0 < unitsPerOne := by decide +kernel

theorem representable_mul_unitsPerOne {n : Nat} (h : n ≤ 2 ^ 53) :
    Representable (n * unitsPerOne) := by
  obtain ⟨e, he⟩ : ∃ e, unitsPerOne = 2 ^ e := ⟨1074, by decide +kernel⟩
  rw [he]
  exact representable_mul_two_pow h e

theorem roundUnits_one {u : Nat} (h : Representable u) : roundUnits u 1 = u := by
  have hgap := spacing_pos u
  exact Nat.le_antisymm (roundUnits_le h Nat.one_pos (by omega))
    (le_roundUnits h Nat.one_pos (by omega))

/-- A quotient of up to `2^65` is in range. -/
theorem ofUnitRatio_eq {num den : Nat} (negative : Bool) (hden : 0 < den)
    (h : num ≤ 2 ^ 65 * unitsPerOne * den) :
    ofUnitRatio negative num den = finite negative (roundUnits num den) := by
  obtain ⟨e, he⟩ : ∃ e, 2 ^ 65 * unitsPerOne = 2 ^ e := ⟨1139, by decide +kernel⟩
  have hpow : Representable (2 ^ 65 * unitsPerOne) := by
    rw [he, ← Nat.one_mul (2 ^ e)]
    exact representable_mul_two_pow (by decide) e
  have hle : roundUnits num den ≤ 2 ^ 65 * unitsPerOne := by
    have hgap := Nat.mul_pos hden (spacing_pos (2 ^ 65 * unitsPerOne))
    exact roundUnits_le hpow hden (by omega)
  have hlimit : 2 ^ 65 * unitsPerOne < limit := by decide +kernel
  unfold ofUnitRatio
  dsimp only
  rw [if_pos (Nat.lt_of_le_of_lt hle hlimit)]

theorem ofNat_eq {n : Nat} (h : n ≤ 2 ^ 64) :
    ofNat n = finite false (roundUnits (n * unitsPerOne) 1) := by
  have hle := Nat.mul_le_mul_right unitsPerOne h
  unfold ofNat ofRatio
  exact ofUnitRatio_eq false Nat.one_pos (by omega)

/-- A natural of at most 53 bits is held exactly. -/
theorem ofNat_eq_of_le {n : Nat} (h : n ≤ 2 ^ 53) : ofNat n = finite false (n * unitsPerOne) := by
  rw [ofNat_eq (Nat.le_trans h (by decide)), roundUnits_one (representable_mul_unitsPerOne h)]

/-- The sum of two numbers that are not negative, where it is in range. -/
theorem add_eq {u v : Nat} (h : u + v ≤ 2 ^ 65 * unitsPerOne) :
    (finite false u).add (finite false v) = finite false (roundUnits (u + v) 1) := by
  show (if (u : Int) + v = 0 then finite false 0
    else ofUnitRatio ((u : Int) + v < 0) ((u : Int) + v).natAbs 1) = _
  by_cases hzero : u + v = 0
  · rw [if_pos (by omega), hzero]
    rfl
  · rw [if_neg (by omega), decide_eq_false (by omega)]
    exact ofUnitRatio_eq false Nat.one_pos (by omega)

end Binary64

namespace Duration

variable {d : Duration} {u : Nat}

theorem le_iff {other : Duration} : d ≤ other ↔ d.nanos ≤ other.nanos := Iff.rfl

theorem secs_add_subsecNanos (d : Duration) : d.secs * perSecond + d.subsecNanos = d.nanos :=
  Nat.div_add_mod' _ _

theorem subsecNanos_lt (d : Duration) : d.subsecNanos < perSecond := Nat.mod_lt _ (by decide)

/-- Dividing the seconds and the nanoseconds on their own, with a carry, is dividing the nanoseconds
of all of it. -/
theorem dividedBy?_eq (d : Duration) {count : Nat} (h : count ≠ 0) :
    d.dividedBy? count = some ⟨d.nanos / count⟩ := by
  have hsplit : d.nanos = d.secs % count * perSecond + d.subsecNanos % count
      + count * (d.secs / count * perSecond + d.subsecNanos / count) := by
    calc d.nanos = d.secs * perSecond + d.subsecNanos := d.secs_add_subsecNanos.symm
      _ = (d.secs % count + count * (d.secs / count)) * perSecond
          + (d.subsecNanos % count + count * (d.subsecNanos / count)) := by
        rw [Nat.mod_add_div, Nat.mod_add_div]
      _ = _ := by
        rw [Nat.add_mul, Nat.mul_add, Nat.mul_assoc]
        omega
  have hdiv := congrArg (· / count) hsplit
  rw [Nat.add_mul_div_left _ _ (Nat.pos_of_ne_zero h)] at hdiv
  unfold dividedBy?
  dsimp only at hdiv ⊢
  rw [if_neg h, hdiv]
  congr 2
  omega

/-- A duration in units, times the nanoseconds of a second. -/
theorem nanos_mul (d : Duration) :
    d.nanos * unitsPerOne = d.secs * unitsPerOne * perSecond + d.subsecNanos * unitsPerOne := by
  rw [← d.secs_add_subsecNanos, Nat.add_mul, Nat.mul_right_comm]

/-- The units of the whole seconds. -/
def wholeUnits (d : Duration) : Nat := roundUnits (d.secs * unitsPerOne) 1

/-- The units of the fraction of a second. -/
def fractionUnits (d : Duration) : Nat := roundUnits (d.subsecNanos * unitsPerOne) perSecond

/-- The units of the number of seconds. -/
def secondUnits (d : Duration) : Nat := roundUnits (d.wholeUnits + d.fractionUnits) 1

theorem representable_secondUnits (d : Duration) : Representable d.secondUnits :=
  representable_roundUnits _ Nat.one_pos

/-! ## The parts -/

/-- The fraction is off by half a gap below one at most. -/
theorem fractionUnits_near (d : Duration) :
    2 * (d.subsecNanos * unitsPerOne) ≤ 2 * (d.fractionUnits * perSecond) +
      perSecond * gapBelowOne ∧
      2 * (d.fractionUnits * perSecond) ≤ 2 * (d.subsecNanos * unitsPerOne) + perSecond *
        gapBelowOne := by
  have hgap : spacing (d.subsecNanos * unitsPerOne / perSecond) ≤ gapBelowOne := by
    have hlt : d.subsecNanos * unitsPerOne / perSecond < unitsPerOne := by
      rw [Nat.div_lt_iff_lt_mul (by decide), Nat.mul_comm]
      exact Nat.mul_lt_mul_of_pos_left d.subsecNanos_lt unitsPerOne_pos
    obtain ⟨e, he⟩ : ∃ e, gapBelowOne = 2 ^ e := ⟨1021, by decide +kernel⟩
    have hunits : unitsPerOne = 2 ^ (e + 53) := by
      rw [unitsPerOne_eq, he, Nat.pow_add, Nat.mul_comm]
    rw [he]
    exact spacing_le (Nat.lt_of_lt_of_eq hlt hunits)
  have hwide := Nat.mul_le_mul_left perSecond hgap
  obtain ⟨hle, hge⟩ := roundUnits_near (d.subsecNanos * unitsPerOne) (show 0 < perSecond by decide)
  rw [fractionUnits]
  omega

theorem fractionUnits_lt (d : Duration) : d.fractionUnits < unitsPerOne := by
  obtain ⟨-, hle⟩ := d.fractionUnits_near
  have hsub : d.subsecNanos * unitsPerOne ≤ 999999999 * unitsPerOne :=
    Nat.mul_le_mul_right _ (Nat.le_of_lt_succ d.subsecNanos_lt)
  have hpos : 0 < gapBelowOne := by decide +kernel
  rw [unitsPerOne_eq] at *
  rw [perSecond] at hle
  omega

/-- Up to `2^53` whole seconds are held exactly. -/
theorem wholeUnits_eq (h : d.secs ≤ 2 ^ 53) : d.wholeUnits = d.secs * unitsPerOne :=
  roundUnits_one (representable_mul_unitsPerOne h)

theorem wholeUnits_le (h : d.nanos < limit) : d.wholeUnits ≤ 2 ^ 64 * unitsPerOne := by
  obtain ⟨e, he⟩ : ∃ e, 2 ^ 64 * unitsPerOne = 2 ^ e := ⟨1138, by decide +kernel⟩
  have hpow : Representable (2 ^ 64 * unitsPerOne) := by
    rw [he, ← Nat.one_mul (2 ^ e)]
    exact representable_mul_two_pow (by decide) e
  have hsecs : d.secs < 2 ^ 64 := (Nat.div_lt_iff_lt_mul (by decide)).mpr h
  have hle := Nat.mul_le_mul_right unitsPerOne (Nat.le_of_lt hsecs)
  have hgap := spacing_pos (2 ^ 64 * unitsPerOne)
  exact roundUnits_le hpow Nat.one_pos (by omega)

/-- The number of seconds of a duration is finite. -/
theorem asSeconds_eq (h : d.nanos < limit) : d.asSeconds = finite false d.secondUnits := by
  have hsecs : d.secs ≤ 2 ^ 64 := Nat.le_of_lt ((Nat.div_lt_iff_lt_mul (by decide)).mpr h)
  have hsub := d.subsecNanos_lt
  have hwhole : ofNat d.secs = finite false d.wholeUnits := ofNat_eq hsecs
  have hfraction : (ofNat d.subsecNanos).div (ofNat perSecond) = finite false d.fractionUnits := by
    have hden : 0 < perSecond * unitsPerOne := Nat.mul_pos (by decide) unitsPerOne_pos
    have hle : d.subsecNanos * unitsPerOne ≤ perSecond * unitsPerOne :=
      Nat.mul_le_mul_right _ (Nat.le_of_lt hsub)
    rw [ofNat_eq_of_le (Nat.le_trans (Nat.le_of_lt hsub) (by decide)), ofNat_eq_of_le (by decide),
      Binary64.div, if_neg (Nat.ne_of_gt hden), ofUnitRatio_eq _ hden,
      roundUnits_mul_mul_right _ _ unitsPerOne_pos]
    · rfl
    · calc d.subsecNanos * unitsPerOne * unitsPerOne
          ≤ perSecond * unitsPerOne * unitsPerOne := Nat.mul_le_mul_right _ hle
        _ ≤ perSecond * unitsPerOne * (2 ^ 65 * unitsPerOne) :=
          Nat.mul_le_mul_left _ (Nat.le_mul_of_pos_left _ (by decide))
        _ = 2 ^ 65 * unitsPerOne * (perSecond * unitsPerOne) := Nat.mul_comm _ _
  have hle := wholeUnits_le h
  have hlt := d.fractionUnits_lt
  rw [asSeconds, hwhole, hfraction, add_eq (by omega)]
  rfl

/-! ## The sum -/

/-- A duration that is not more than a number that can be held is not rounded to more than that. -/
theorem secondUnits_le (hu : Representable u) (h : d.nanos * unitsPerOne ≤ u * perSecond) :
    d.secondUnits ≤ u := by
  have hgap := spacing_pos u
  obtain ⟨-, hfraction⟩ := d.fractionUnits_near
  rw [nanos_mul] at h
  rw [perSecond] at h hfraction
  refine roundUnits_le hu Nat.one_pos ?_
  -- There is room between the number and the middle of the gap above it, which the error of the
  -- fraction does not fill.
  rcases Nat.eq_zero_or_pos d.secs with hzero | hpos
  · have hwhole := wholeUnits_eq (d := d) (by omega)
    rw [hzero, Nat.zero_mul] at hwhole
    have hle : d.fractionUnits ≤ u := by
      refine roundUnits_le hu (by decide) ?_
      rw [perSecond]
      omega
    omega
  · have hone : unitsPerOne ≤ d.secs * unitsPerOne := Nat.le_mul_of_pos_left _ hpos
    rcases Nat.lt_or_ge (2 ^ 53) d.secs with hlarge | hsmall
    · obtain ⟨e, he, he'⟩ : ∃ e, 2 * unitsPerOne = 2 ^ e ∧ 2 ^ 53 * unitsPerOne = 2 ^ (e + 52) :=
        ⟨1075, by decide +kernel, by decide +kernel⟩
      have hsecs : 2 ^ 53 * unitsPerOne ≤ d.secs * unitsPerOne :=
        Nat.mul_le_mul_right _ (Nat.le_of_lt hlarge)
      have hwide : 2 ^ e ≤ spacing u := le_spacing (by omega)
      have hwhole : d.wholeUnits ≤ u := roundUnits_le hu Nat.one_pos (by omega)
      have hlt := d.fractionUnits_lt
      omega
    · obtain ⟨e, he, he'⟩ : ∃ e, 2 * gapBelowOne = 2 ^ e ∧ unitsPerOne = 2 ^ (e + 52) :=
        ⟨1022, by decide +kernel, by decide +kernel⟩
      have hwide : 2 ^ e ≤ spacing u := le_spacing (by omega)
      have hwhole := wholeUnits_eq hsmall
      omega

/-- Below `2^22` seconds the number is off by less than half a nanosecond. -/
theorem secondUnits_near (h : d.secs < 2 ^ 22) :
    2 * (d.nanos * unitsPerOne) < 2 * (d.secondUnits * perSecond) + unitsPerOne ∧
      2 * (d.secondUnits * perSecond) < 2 * (d.nanos * unitsPerOne) + unitsPerOne := by
  obtain ⟨e, he, he'⟩ : ∃ e, 2 ^ 22 * gapBelowOne = 2 ^ e ∧ 2 ^ 22 * unitsPerOne = 2 ^ (e + 53) :=
    ⟨1043, by decide +kernel, by decide +kernel⟩
  have hwhole := wholeUnits_eq (d := d) (by omega)
  have hsecs : (d.secs + 1) * unitsPerOne ≤ 2 ^ 22 * unitsPerOne := Nat.mul_le_mul_right _ h
  have hlt := d.fractionUnits_lt
  have hgap : spacing ((d.wholeUnits + d.fractionUnits) / 1) ≤ 2 ^ e := by
    rw [Nat.div_one]
    rw [Nat.succ_mul] at hsecs
    exact spacing_le (by omega)
  have hsum := roundUnits_near (d.wholeUnits + d.fractionUnits) Nat.one_pos
  have hfraction := d.fractionUnits_near
  have hpos : 0 < gapBelowOne := by decide +kernel
  rw [← secondUnits] at hsum
  rw [nanos_mul]
  rw [perSecond] at hfraction ⊢
  rw [unitsPerOne_eq] at *
  omega

/-- A number of whole seconds that can be held is not undercut by a duration that is not less. -/
theorem le_secondUnits {n : Nat} (hn : n ≤ 2 ^ 53) (h : n ≤ d.secs) :
    n * unitsPerOne ≤ d.secondUnits := by
  have hu := representable_mul_unitsPerOne hn
  have hsecs : n * unitsPerOne ≤ d.secs * unitsPerOne := Nat.mul_le_mul_right _ h
  have hwhole : n * unitsPerOne ≤ d.wholeUnits := le_roundUnits hu Nat.one_pos (by omega)
  exact le_roundUnits hu Nat.one_pos (by omega)

theorem secondUnits_le_of_secs_lt (h : d.secs < 2 ^ 22) : d.secondUnits ≤ 2 ^ 22 * unitsPerOne := by
  have hnanos : d.nanos ≤ 2 ^ 22 * perSecond :=
    Nat.le_of_lt ((Nat.div_lt_iff_lt_mul (by decide)).mp h)
  refine secondUnits_le (representable_mul_unitsPerOne (by decide)) ?_
  rw [Nat.mul_right_comm]
  exact Nat.mul_le_mul_right _ hnanos

/-- Durations below `2^22` seconds are told from all others by their numbers of seconds. -/
theorem nanos_le_of_secondUnits_le {other : Duration} (h : d.secs < 2 ^ 22)
    (hle : other.secondUnits ≤ d.secondUnits) :
    other.nanos ≤ d.nanos := by
  obtain ⟨-, hhigh⟩ := secondUnits_near h
  rcases Nat.lt_or_ge other.secs (2 ^ 22) with hother | hother
  · obtain ⟨hlow, -⟩ := secondUnits_near hother
    refine Nat.le_of_lt_succ (Nat.lt_of_mul_lt_mul_right (a := unitsPerOne) ?_)
    rw [Nat.succ_mul]
    rw [perSecond] at hlow hhigh
    omega
  · -- The other duration is not below the bound, and this one is a nanosecond below it.
    have hunits := le_secondUnits (by decide) hother
    have hnanos : d.nanos + 1 ≤ 2 ^ 22 * perSecond := (Nat.div_lt_iff_lt_mul (by decide)).mp h
    have hmul := Nat.mul_le_mul_right unitsPerOne hnanos
    rw [Nat.succ_mul] at hmul
    have hpos := unitsPerOne_pos
    rw [perSecond] at hhigh hmul
    omega

/-! ## Reading back -/

/-- The number of nanoseconds that a count of units is nearest to. -/
@[irreducible]
def nanosOfUnits (u : Nat) : Nat := roundHalfEven (u * perSecond) unitsPerOne

theorem ofSeconds?_finite (h : nanosOfUnits u < limit) :
    ofSeconds? (finite false u) = .ok ⟨nanosOfUnits u⟩ := by
  have hsign : ¬ (false = true ∧ u ≠ 0) := fun hneg => Bool.noConfusion hneg.1
  unfold nanosOfUnits at h ⊢
  unfold ofSeconds?
  dsimp only
  rw [if_neg hsign, if_pos h]

/-- A number that is less than half a nanosecond below a duration, or not below it, is not read back
as less. -/
theorem le_nanosOfUnits {n : Nat} (h : 2 * (n * unitsPerOne) < 2 * (u * perSecond) + unitsPerOne) :
    n ≤ nanosOfUnits u := by
  unfold nanosOfUnits
  exact le_roundHalfEven unitsPerOne_pos h

theorem nanosOfUnits_le {n : Nat} (h : 2 * (u * perSecond) < 2 * (n * unitsPerOne) + unitsPerOne) :
    nanosOfUnits u ≤ n := by
  unfold nanosOfUnits
  exact roundHalfEven_le unitsPerOne_pos h

/-- A number that can be held and is less than that of a duration is not read back as more than the
duration. -/
theorem nanosOfUnits_le_of_lt (hu : Representable u) (h : u < d.secondUnits) :
    nanosOfUnits u ≤ d.nanos := by
  have hlt : u * perSecond < d.nanos * unitsPerOne :=
    Nat.lt_of_not_le fun hle => Nat.not_le_of_lt h (secondUnits_le hu hle)
  exact nanosOfUnits_le (by omega)

theorem nanosOfUnits_secondUnits (h : d.secs < 2 ^ 22) : nanosOfUnits d.secondUnits = d.nanos := by
  obtain ⟨hlow, hhigh⟩ := secondUnits_near h
  exact Nat.le_antisymm (nanosOfUnits_le hhigh) (le_nanosOfUnits hlow)

end Duration

end LedgerBench
