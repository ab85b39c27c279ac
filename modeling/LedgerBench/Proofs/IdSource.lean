import LedgerBench.IdSource
import LedgerBench.Proofs.Run.Complete
/-!
Identifiers in the order in which they were drawn.

An identifier is a number with the time above the random bits, so it is the time that decides which
of two is smaller, and the random bits decide where the times are the same. What is proved:
  1. `toNat_at`: the number of an identifier, as long as its time has 48 bits.
  2. `le_at_iff`: identifiers are ordered by their times, and by their random bits within a
     millisecond.
  3. `IdSource.ordered_of_timed`: so the identifiers that are drawn from one source at a clock that
     does not go back are in order exactly if the random bits do not fall within a millisecond, and
     the same holds of listings that are sorted by identifier.
  4. `IdSource.disordered_of_steadyClock`: two identifiers of one millisecond in the wrong order.
-/

namespace LedgerBench

namespace Ulid

/-- A time that fits into an identifier. -/
def FitsTime (time : Timestamp) : Prop := 0 ≤ time.millis ∧ time.millis < 2 ^ 48

theorem toNat_at {time : Timestamp} (h : FitsTime time) (random : Nat) :
    (Ulid.at time random).bits.toNat = time.millis.toNat * 2 ^ 80 + random % 2 ^ 80 := by
  obtain ⟨hlow, hhigh⟩ := h
  have hmillis : (time.millis % (2 ^ 48 : Nat)).toNat = time.millis.toNat := by omega
  have hfits : time.millis.toNat < 2 ^ 48 := by omega
  have hrandom : random % 2 ^ 80 < 2 ^ 80 := Nat.mod_lt _ (by decide)
  unfold Ulid.at ofParts
  rw [hmillis, BitVec.toNat_ofNat, Nat.mod_eq_of_lt hfits]
  apply Nat.mod_eq_of_lt
  omega

/-- The time decides, and within a millisecond the random bits. -/
theorem le_at_iff {time other : Timestamp} (h : FitsTime time) (h' : FitsTime other)
    (random random' : Nat) :
    le (Ulid.at time random) (Ulid.at other random') = true ↔
      time.millis < other.millis ∨ time.millis = other.millis ∧
        random % 2 ^ 80 ≤ random' % 2 ^ 80 := by
  have hrandom : random % 2 ^ 80 < 2 ^ 80 := Nat.mod_lt _ (by decide)
  have hrandom' : random' % 2 ^ 80 < 2 ^ 80 := Nat.mod_lt _ (by decide)
  obtain ⟨hlow, -⟩ := id h
  obtain ⟨hlow', -⟩ := id h'
  rw [le, decide_eq_true_eq, toNat_at h, toNat_at h']
  omega

theorem le_trans (a b c : Ulid) : le a b = true → le b c = true → le a c = true := by
  simp only [le, decide_eq_true_eq]
  exact Nat.le_trans

theorem le_total (a b : Ulid) : (le a b || le b a) = true := by
  simp only [le, Bool.or_eq_true, decide_eq_true_eq]
  exact Nat.le_total _ _

/-- Sorting leaves every listing of some numbered identifiers as it is, exactly if the identifiers
themselves are in order. -/
theorem mergeSort_listing_iff (ids : Nat → Ulid) :
    (∀ n, ∀ listing : List Ulid, listing.Sublist ((List.range n).map ids) →
        listing.mergeSort le = listing) ↔ ∀ i j, i < j → le (ids i) (ids j) = true := by
  constructor
  · intro h i j hij
    have hpair : [ids i, ids j].Sublist ((List.range (j + 1)).map ids) := by
      have hrange : [i, j].Sublist (List.range (j + 1)) := by
        rw [List.range_succ]
        exact (List.singleton_sublist.mpr (List.mem_range.mpr hij)).append (List.Sublist.refl [j])
      exact hrange.map ids
    have hsorted := List.pairwise_mergeSort le_trans le_total [ids i, ids j]
    rw [h _ _ hpair] at hsorted
    simpa using hsorted
  · intro h n listing hlisting
    apply List.mergeSort_of_pairwise
    apply List.Pairwise.sublist hlisting
    rw [List.pairwise_map]
    exact List.Pairwise.imp (fun hij => h _ _ hij) List.pairwise_lt_range

end Ulid

/-! ## The tasks of a run -/

/-- The calls of a group and then the group itself, by their identifiers. -/
def Task.drawnIds (t : Task) : List Ulid := t.calls.map (fun c => c.id.ulid) ++ [t.id.ulid]

theorem drawnIds_groupTask (ids : IdSource) (first : Nat) (specs : List CallSpec) :
    (groupTask ids first specs).drawnIds = (List.range' first (specs.length + 1)).map ids := by
  have hcalls : (groupCalls ids first specs).map (fun c => c.id.ulid) =
      (List.range' first specs.length).map ids := by
    apply List.ext_getElem?
    intro i
    simp only [groupCalls, List.getElem?_map, List.getElem?_mapIdx]
    by_cases hi : i < specs.length
    · simp [hi]
    · simp [hi]
  rw [Task.drawnIds, calls_groupTask, hcalls, List.range'_concat, List.map_append, Nat.one_mul]
  rfl

/-- The tasks of a run take one identifier after the other, in the order in which they are made. -/
theorem Bench.drawnIds_groupTasks {σ : Type} (b : Bench σ) (ids : IdSource) (first : Nat)
    (specs : List CallSpec) :
    (b.groupTasks ids first specs).flatMap Task.drawnIds =
      (List.range' first (b.config.iterations * (specs.length + 1))).map ids := by
  rw [groupTasks, List.flatMap_map]
  simp only [drawnIds_groupTask]
  generalize b.config.iterations = k
  induction k with
  | zero => simp
  | succ k ih =>
    rw [List.range_succ, List.flatMap_append, ih, List.flatMap_singleton, ← List.map_append,
      List.range'_append_1, Nat.succ_mul]

/-! ## The order of drawing -/

namespace IdSource

/-- Identifiers drawn from one source at a clock that does not go back. Those of different
milliseconds are in the order in which they were drawn, and all of them are if and only if the
random bits do not fall within a millisecond; this is also when every listing of tasks of a run that
is sorted by identifier keeps the order in which the tasks were made. -/
theorem ordered_of_timed {clock : Nat → Timestamp} {random : Nat → Nat}
    (hfits : ∀ n, Ulid.FitsTime (clock n))
    (hclock : ∀ i j, i ≤ j → (clock i).millis ≤ (clock j).millis) :
    (∀ i j, (clock i).millis < (clock j).millis →
      (timed clock random i).bits < (timed clock random j).bits) ∧
      ((∀ i j, i < j → Ulid.le (timed clock random i) (timed clock random j) = true) ↔
        ∀ i j, i < j → (clock i).millis = (clock j).millis →
          random i % 2 ^ 80 ≤ random j % 2 ^ 80) ∧
      ((∀ n, ∀ listing : List Ulid, listing.Sublist ((List.range n).map (timed clock random)) →
        listing.mergeSort Ulid.le = listing) ↔
        ∀ i j, i < j → (clock i).millis = (clock j).millis →
          random i % 2 ^ 80 ≤ random j % 2 ^ 80) ∧
      ∀ {σ : Type} (b : Bench σ) (first : Nat) (specs : List CallSpec),
        (b.groupTasks (timed clock random) first specs).flatMap Task.drawnIds =
          (List.range' first (b.config.iterations * (specs.length + 1))).map
            (timed clock random) := by
  have horder : (∀ i j, i < j → Ulid.le (timed clock random i) (timed clock random j) = true) ↔
      ∀ i j, i < j → (clock i).millis = (clock j).millis →
        random i % 2 ^ 80 ≤ random j % 2 ^ 80 := by
    simp only [timed, Ulid.le_at_iff (hfits _) (hfits _)]
    constructor
    · intro h i j hij hsame
      rcases h i j hij with hlt | ⟨-, hle⟩
      · exact absurd hsame (Int.ne_of_lt hlt)
      · exact hle
    · intro h i j hij
      rcases Int.lt_or_eq_of_le (hclock i j (Nat.le_of_lt hij)) with hlt | hsame
      · exact .inl hlt
      · exact .inr ⟨hsame, h i j hij hsame⟩
  refine ⟨?_, horder, (Ulid.mergeSort_listing_iff _).trans horder,
    fun b first specs => b.drawnIds_groupTasks _ first specs⟩
  intro i j hlt
  have hrandom : random i % 2 ^ 80 < 2 ^ 80 := Nat.mod_lt _ (by decide)
  obtain ⟨hlow, -⟩ := hfits i
  rw [BitVec.lt_def, timed, timed, Ulid.toNat_at (hfits i), Ulid.toNat_at (hfits j)]
  omega

/-- The clock ticks once, after the second identifier. -/
def tickingOnce (n : Nat) : Timestamp := ⟨if n < 2 then 1704110400000 else 1704110400001⟩

/-- Bits that fall from the second identifier to the third only. -/
def fallingOnce (n : Nat) : Nat := if n < 2 then n + 3 else 1

/-- Bits may fall where the clock ticks. -/
theorem ordered_of_timed_tickingOnce :
    (∀ n, Ulid.FitsTime (tickingOnce n)) ∧
      (∀ i j, i ≤ j → (tickingOnce i).millis ≤ (tickingOnce j).millis) ∧
      ∀ i j, i < j → Ulid.le (timed tickingOnce fallingOnce i) (timed tickingOnce fallingOnce j) =
        true := by
  have hfits : ∀ n, Ulid.FitsTime (tickingOnce n) := by
    intro n
    simp only [Ulid.FitsTime, tickingOnce]
    omega
  have hclock : ∀ i j, i ≤ j → (tickingOnce i).millis ≤ (tickingOnce j).millis := by
    intro i j hij
    simp only [tickingOnce]
    omega
  refine ⟨hfits, hclock, ?_⟩
  obtain ⟨-, horder, -⟩ := @ordered_of_timed _ fallingOnce hfits hclock
  rw [horder]
  intro i j hij hsame
  by_cases hj : j < 2
  · obtain ⟨rfl, rfl⟩ : i = 0 ∧ j = 1 := by omega
    decide
  · have hi : ¬ i < 2 := by
      intro hi
      simp [tickingOnce, hi, hj] at hsame
    simp [fallingOnce, hi, hj]

/-- A clock that stands still while the random bits fall from one to zero. -/
def steadyFalling : IdSource := timed (fun _ => ⟨1704110400000⟩) fun n => 1 - n

/-- Two identifiers of one millisecond: a listing that is sorted by identifier has the later one
first. -/
theorem disordered_of_steadyClock :
    Ulid.FitsTime ⟨1704110400000⟩ ∧ Ulid.le (steadyFalling 0) (steadyFalling 1) = false ∧
      ((List.range 2).map steadyFalling).mergeSort Ulid.le =
        ((List.range 2).map steadyFalling).reverse := by
  have hfalls : Ulid.le (steadyFalling 0) (steadyFalling 1) = false := by decide
  refine ⟨by simp [Ulid.FitsTime], hfalls, ?_⟩
  rw [List.mergeSort.eq_def]
  simp [List.range_succ, List.MergeSort.Internal.splitInTwo, hfalls]

end IdSource

end LedgerBench
