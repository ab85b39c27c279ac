import LedgerBench.Proofs.Duration
import LedgerBench.Run.Statistics
import Mathlib.Algebra.Order.BigOperators.Group.List
import Mathlib.Algebra.Order.Ring.Nat
/-!
Summaries of durations.

The least and the greatest of some durations are folds, and their mean is a division of the total
that is rounded down. What is proved:
  1. `Best.foldl`, `Best.unique`: folding a choice gives a member that is at least as good as every
     member, and there is one such member only, whatever the order.
  2. `Describes.le_average_iff`, `Describes.average_le_iff`: the mean against any bound, through the
     total.
  3. `exists_describes`, `ofSamples_perm`: samples that can be added up have a summary, and their
     order does not matter. `ofSamples_ok_iff`: what it takes for there to be no panic.
  4. `describes_and_joins`: a summary describes its samples, with the mean between the least and the
     greatest of them, and the summary of the successful and the failed calls together joins those
     of each.
-/

namespace LedgerBench

/-! ## The best of a list -/

/-- A member of a list that is at least as good as every member. -/
structure Best {α : Type} (better : α → α → Prop) (x : α) (xs : List α) : Prop where
  mem : x ∈ xs
  best : ∀ y ∈ xs, better x y

/-- Picking the better of two. -/
structure Picks {α : Type} (better : α → α → Prop) (pick : α → α → α) : Prop where
  refl : ∀ x, better x x
  trans : ∀ {x y z}, better x y → better y z → better x z
  antisymm : ∀ {x y}, better x y → better y x → x = y
  eq_or_eq : ∀ x y, pick x y = x ∨ pick x y = y
  left : ∀ x y, better (pick x y) x
  right : ∀ x y, better (pick x y) y

section Best

variable {α : Type} {better : α → α → Prop} {pick : α → α → α}

theorem Best.foldl (hp : Picks better pick) (x : α) (rest : List α) :
    Best better (rest.foldl pick x) (x :: rest) := by
  induction rest generalizing x with
  | nil => exact ⟨List.mem_singleton_self x, fun y hy => (List.mem_singleton.mp hy) ▸ hp.refl x⟩
  | cons y rest ih =>
    obtain ⟨hmem, hbest⟩ := ih (pick x y)
    have hhead := hbest (pick x y) List.mem_cons_self
    refine ⟨?_, fun z hz => ?_⟩
    · rcases List.mem_cons.mp hmem with heq | hrest
      · rw [List.foldl_cons, heq, List.mem_cons, List.mem_cons]
        exact (hp.eq_or_eq x y).imp_right .inl
      · exact List.mem_cons_of_mem x (List.mem_cons_of_mem y hrest)
    · rcases List.mem_cons.mp hz with rfl | hz
      · exact hp.trans hhead (hp.left z y)
      rcases List.mem_cons.mp hz with rfl | hz
      · exact hp.trans hhead (hp.right x z)
      · exact hbest z (List.mem_cons_of_mem _ hz)

theorem Best.unique (hp : Picks better pick) {x y : α} {xs ys : List α} (hx : Best better x xs)
    (hy : Best better y ys) (p : xs.Perm ys) : x = y :=
  hp.antisymm (hx.best y (p.mem_iff.mpr hy.mem)) (hy.best x (p.mem_iff.mp hx.mem))

/-- The best of two lists together is the better of the best of each. -/
theorem Best.append (hp : Picks better pick) {x y : α} {xs ys : List α} (hx : Best better x xs)
    (hy : Best better y ys) :
    Best better (pick x y) (xs ++ ys) where
  mem := by
    rcases hp.eq_or_eq x y with h | h
    · rw [h]
      exact List.mem_append_left ys hx.mem
    · rw [h]
      exact List.mem_append_right xs hy.mem
  best z hz := by
    rcases List.mem_append.mp hz with hz | hz
    · exact hp.trans (hp.left x y) (hx.best z hz)
    · exact hp.trans (hp.right x y) (hy.best z hz)

end Best

namespace Duration

theorem le_total (a b : Duration) : a ≤ b ∨ b ≤ a := Nat.le_total a.nanos b.nanos

theorem le_antisymm {a b : Duration} (hab : a ≤ b) (hba : b ≤ a) : a = b :=
  congrArg Duration.mk (Nat.le_antisymm hab hba)

theorem picks_min : Picks (fun a b : Duration => a ≤ b) min where
  refl a := Nat.le_refl a.nanos
  trans hab hbc := Nat.le_trans hab hbc
  antisymm := le_antisymm
  eq_or_eq a b := (Decidable.em (a.nanos ≤ b.nanos)).imp (fun h => if_pos h) fun h => if_neg h
  left a b := by
    unfold min
    split
    · exact Nat.le_refl a.nanos
    · exact (le_total a b).resolve_left ‹_›
  right a b := by
    unfold min
    split
    · assumption
    · exact Nat.le_refl b.nanos

theorem picks_max : Picks (fun a b : Duration => b ≤ a) max where
  refl a := Nat.le_refl a.nanos
  trans hab hbc := Nat.le_trans hbc hab
  antisymm hab hba := le_antisymm hba hab
  eq_or_eq a b := (Decidable.em (a.nanos ≤ b.nanos)).symm.imp (fun h => if_neg h) fun h => if_pos h
  left a b := by
    unfold max
    split
    · assumption
    · exact Nat.le_refl a.nanos
  right a b := by
    unfold max
    split
    · exact Nat.le_refl b.nanos
    · exact (le_total a b).resolve_left ‹_›

/-- The nanoseconds of some durations together. -/
def totalNanos (ds : List Duration) : Nat := (ds.map Duration.nanos).sum

theorem totalNanos_append (xs ys : List Duration) :
    totalNanos (xs ++ ys) = totalNanos xs + totalNanos ys := by
  simp [totalNanos]

theorem totalNanos_perm {xs ys : List Duration} (p : xs.Perm ys) : totalNanos xs = totalNanos ys :=
  (p.map Duration.nanos).sum_eq

theorem sum?_eq (ds : List Duration) :
    sum? ds = if totalNanos ds < limit then some ⟨totalNanos ds⟩ else none :=
  rfl

theorem length_mul_le_totalNanos {d : Duration} {ds : List Duration} (h : ∀ x ∈ ds, d ≤ x) :
    d.nanos * ds.length ≤ totalNanos ds := by
  have hsum := List.card_nsmul_le_sum (ds.map Duration.nanos) d.nanos (List.forall_mem_map.mpr h)
  rwa [List.length_map, Nat.nsmul_eq_mul, Nat.mul_comm] at hsum

theorem totalNanos_le_length_mul {d : Duration} {ds : List Duration} (h : ∀ x ∈ ds, x ≤ d) :
    totalNanos ds ≤ d.nanos * ds.length := by
  have hsum := List.sum_le_card_nsmul (ds.map Duration.nanos) d.nanos (List.forall_mem_map.mpr h)
  rwa [List.length_map, Nat.nsmul_eq_mul, Nat.mul_comm] at hsum

end Duration

/-! ## Samples -/

namespace DurationSummary

/-- What a summary says of its samples. -/
structure Describes (s : DurationSummary) (samples : List Duration) : Prop where
  count : s.count = samples.length
  min : Best (fun a b : Duration => a ≤ b) s.min samples
  max : Best (fun a b : Duration => b ≤ a) s.max samples
  /-- The mean is rounded down to a nanosecond. -/
  average : s.average.nanos = Duration.totalNanos samples / samples.length

/-- What the summary of two lists of samples together has to do with those of each. -/
structure Joins (all a b : DurationSummary) : Prop where
  count : all.count = a.count + b.count
  min : all.min = Duration.min a.min b.min
  max : all.max = Duration.max a.max b.max
  le_average : Duration.min a.average b.average ≤ all.average
  average_le : all.average ≤ Duration.max a.average b.average

variable {s all a b : DurationSummary} {samples xs ys : List Duration} {d : Duration}

namespace Describes

theorem length_pos (h : s.Describes samples) : 0 < samples.length :=
  List.length_pos_of_mem h.min.mem

theorem le_average_iff (h : s.Describes samples) :
    d ≤ s.average ↔ d.nanos * samples.length ≤ Duration.totalNanos samples := by
  rw [Duration.le_iff, h.average, Nat.le_div_iff_mul_le h.length_pos]

theorem average_le_iff (h : s.Describes samples) :
    s.average ≤ d ↔ Duration.totalNanos samples < (d.nanos + 1) * samples.length := by
  rw [Duration.le_iff, h.average, ← Nat.lt_succ_iff, Nat.div_lt_iff_lt_mul h.length_pos]

theorem min_le_average (h : s.Describes samples) : s.min ≤ s.average :=
  h.le_average_iff.mpr (Duration.length_mul_le_totalNanos h.min.best)

theorem average_le_max (h : s.Describes samples) : s.average ≤ s.max := by
  have hle := Duration.totalNanos_le_length_mul h.max.best
  have hpos := h.length_pos
  rw [h.average_le_iff, Nat.succ_mul]
  omega

/-- The mean of all samples lies between the means of two parts: it is a mediant of them, and
rounding down keeps the order. -/
theorem joins (hall : all.Describes (xs ++ ys)) (ha : a.Describes xs) (hb : b.Describes ys) :
    all.Joins a b where
  count := by rw [hall.count, ha.count, hb.count, List.length_append]
  min := hall.min.unique Duration.picks_min (ha.min.append Duration.picks_min hb.min) (.refl _)
  max := hall.max.unique Duration.picks_max (ha.max.append Duration.picks_max hb.max) (.refl _)
  le_average := by
    have hxs := ha.le_average_iff.mp (Duration.picks_min.left a.average b.average)
    have hys := hb.le_average_iff.mp (Duration.picks_min.right a.average b.average)
    rw [hall.le_average_iff, List.length_append, Duration.totalNanos_append, Nat.mul_add]
    exact Nat.add_le_add hxs hys
  average_le := by
    have hxs := ha.average_le_iff.mp (Duration.picks_max.left a.average b.average)
    have hys := hb.average_le_iff.mp (Duration.picks_max.right a.average b.average)
    rw [hall.average_le_iff, List.length_append, Duration.totalNanos_append, Nat.mul_add]
    exact Nat.add_lt_add hxs hys

end Describes

/-- Samples that can be added up, and whose number fits 32 bits, have a summary. -/
theorem exists_describes (hne : samples ≠ []) (hcount : samples.length < countBound)
    (hsum : Duration.totalNanos samples < Duration.limit) :
    ∃ s, ofSamples samples = .ok (some s) ∧ s.Describes samples := by
  obtain ⟨d, rest, rfl⟩ := List.exists_cons_of_ne_nil hne
  have htotal : Duration.sum? (d :: rest) = some ⟨Duration.totalNanos (d :: rest)⟩ := if_pos hsum
  have hmean :=
    Duration.dividedBy?_eq ⟨Duration.totalNanos (d :: rest)⟩ (Nat.succ_ne_zero rest.length)
  unfold ofSamples
  dsimp only
  rw [htotal, Nat.mod_eq_of_lt (show rest.length + 1 < countBound from hcount)]
  dsimp only
  rw [hmean]
  exact ⟨_, rfl, rfl, .foldl Duration.picks_min d rest, .foldl Duration.picks_max d rest, rfl⟩

/-- Samples that have a mean, if there are any: they can be added up, and their number is not zero
in 32 bits. -/
def HasMean (samples : List Duration) : Prop :=
  samples = [] ∨ Duration.totalNanos samples < Duration.limit ∧ samples.length % countBound ≠ 0

theorem ofSamples_ok_iff : (∃ summary?, ofSamples samples = .ok summary?) ↔ HasMean samples := by
  cases samples with
  | nil => exact ⟨fun _ => .inl rfl, fun _ => ⟨none, rfl⟩⟩
  | cons d rest =>
    unfold ofSamples HasMean
    simp only [List.cons_ne_nil, false_or, List.length_cons, Duration.sum?_eq]
    by_cases hsum : Duration.totalNanos (d :: rest) < Duration.limit
    · by_cases hcount : (rest.length + 1) % countBound = 0
      · simp [hsum, hcount, Duration.dividedBy?]
      · simp [hsum, hcount, Duration.dividedBy?]
    · simp [hsum]

theorem hasMean_of_lt (hcount : samples.length < countBound)
    (hsum : Duration.totalNanos samples < Duration.limit) : HasMean samples := by
  by_cases hnil : samples = []
  · exact .inl hnil
  · refine .inr ⟨hsum, ?_⟩
    rw [Nat.mod_eq_of_lt hcount]
    exact Nat.ne_of_gt (List.length_pos_of_ne_nil hnil)

/-- The order of the samples does not matter, not even to whether there is a summary. -/
theorem ofSamples_perm (p : xs.Perm ys) : ofSamples xs = ofSamples ys := by
  cases xs with
  | nil => rw [p.nil_eq]
  | cons x xs =>
    obtain ⟨y, ys, rfl⟩ : ∃ z zs, ys = z :: zs := by
      cases ys with
      | nil => exact absurd p.eq_nil (List.cons_ne_nil x xs)
      | cons z zs => exact ⟨z, zs, rfl⟩
    have hsum : Duration.sum? (x :: xs) = Duration.sum? (y :: ys) := by
      rw [Duration.sum?_eq, Duration.sum?_eq, Duration.totalNanos_perm p]
    have hlength : xs.length + 1 = ys.length + 1 := p.length_eq
    have hmin := (Best.foldl Duration.picks_min x xs).unique Duration.picks_min
      (Best.foldl Duration.picks_min y ys) p
    have hmax := (Best.foldl Duration.picks_max x xs).unique Duration.picks_max
      (Best.foldl Duration.picks_max y ys) p
    unfold ofSamples
    dsimp only
    rw [hsum, hlength, hmin, hmax]

/-- A summary describes its samples, its mean lies between the least and the greatest of them, and
the summary of the successful and the failed calls together joins those of each. -/
theorem describes_and_joins :
    (∀ samples : List Duration, samples ≠ [] → samples.length < countBound →
      Duration.totalNanos samples < Duration.limit →
      ∃ s, ofSamples samples = .ok (some s) ∧ s.Describes samples ∧ s.min ≤ s.average ∧
        s.average ≤ s.max) ∧
    (∀ r : RunStatistics, r.successDurations ≠ [] → r.failureDurations ≠ [] →
      r.allDurations.length < countBound →
      Duration.totalNanos r.allDurations < Duration.limit →
      ∃ all succeeded failed, ofSamples r.allDurations = .ok (some all) ∧
        ofSamples r.successDurations = .ok (some succeeded) ∧
        ofSamples r.failureDurations = .ok (some failed) ∧ all.Joins succeeded failed) := by
  constructor
  · intro samples hne hcount hsum
    obtain ⟨s, hs, hdescribes⟩ := exists_describes hne hcount hsum
    exact ⟨s, hs, hdescribes, hdescribes.min_le_average, hdescribes.average_le_max⟩
  · intro r hsucceeded hfailed hcount hsum
    have hlength : r.allDurations.length = r.successDurations.length + r.failureDurations.length :=
      List.length_append
    have htotal : Duration.totalNanos r.allDurations = _ :=
      Duration.totalNanos_append r.successDurations r.failureDurations
    obtain ⟨all, hall, hdall⟩ :=
      exists_describes (List.append_ne_nil_of_left_ne_nil hsucceeded r.failureDurations) hcount hsum
    obtain ⟨succeeded, hs, hds⟩ := exists_describes hsucceeded (by omega) (by omega)
    obtain ⟨failed, hf, hdf⟩ := exists_describes hfailed (by omega) (by omega)
    exact ⟨all, succeeded, failed, hall, hs, hf, hdall.joins hds hdf⟩

/-! ### A mean that is not whole -/

/-- Two calls that took a second each, and a failed one that took a nanosecond more than two. -/
def unevenRun : RunStatistics :=
  { RunStatistics.new ⟨⟨0⟩⟩ 3 1 1 ⟨0⟩ with
    successDurations := [Duration.ofSecs 1, Duration.ofSecs 1]
    failureDurations := [⟨2000000001⟩] }

example : ofSamples unevenRun.allDurations =
    .ok (some { count := 3, average := ⟨1333333333⟩, min := ⟨1000000000⟩,
                max := ⟨2000000001⟩ }) := by decide +kernel

theorem describes_and_joins_uneven :
    (∃ s, ofSamples unevenRun.allDurations = .ok (some s) ∧ s.Describes unevenRun.allDurations ∧
      s.min ≤ s.average ∧ s.average ≤ s.max) ∧
      ∃ all succeeded failed, ofSamples unevenRun.allDurations = .ok (some all) ∧
        ofSamples unevenRun.successDurations = .ok (some succeeded) ∧
        ofSamples unevenRun.failureDurations = .ok (some failed) ∧ all.Joins succeeded failed :=
  ⟨describes_and_joins.1 unevenRun.allDurations (by decide) (by decide) (by decide),
    describes_and_joins.2 unevenRun (by decide) (by decide) (by decide) (by decide)⟩

end DurationSummary

end LedgerBench
