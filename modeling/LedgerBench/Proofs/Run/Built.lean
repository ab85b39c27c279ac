import LedgerBench.Proofs.Run.Accepted
/-!
Runs of a bench that was built.

A bench is checked when it is built, but its queue, its workers, its groups and the statistics of
its calls are made when a run starts, after the identifiers of the run have been drawn. The check
asks that none of the limits is zero; how large they are it leaves to the start. What is proved:
  1. `runBatch_eq_ok`, `runBatch_eq_panicked`: where its sizes can be made a run has statistics, and
     where not it panics.
  2. `begins_of_build`: so it is for every bench that was built, and if it panics over the queue,
     all identifiers of the run have been drawn.
  3. `panicked_of_longQueue`: a bench that was built, with a queue that cannot be made.
-/

namespace LedgerBench

namespace Bench

variable {σ : Type} {p : BenchPlan σ} {b : Bench σ} {specs : List CallSpec}

/-- Once the groups and the counts are made, a queue that cannot be made is what a run panics
over. -/
theorem begin_eq_queueTooLong (s : Session σ) (mode : CallMode) (startedAt : Timestamp)
    (hgroups : b.config.iterations ≤ Executor.maxItems)
    (hcalls : b.config.iterations * specs.length < Progress.countBound)
    (hqueue : Executor.maxQueue < b.config.queueCapacity) :
    b.begin s specs mode startedAt = .error (.panicked Executor.queueTooLong) := by
  refine begin_eq_error_iff.mpr ⟨_, ?_, rfl⟩
  unfold obstacle?
  rw [if_neg (Nat.not_lt_of_le hgroups), if_neg (Nat.not_le_of_lt hcalls), if_pos hqueue]

/-! ## Batches -/

section Batch

variable {batch : String} (hbatch : CallSpec.readBatch batch = .ok specs) (s : Session σ)
  (mode : CallMode) (timeOfDay : Duration → Timestamp)

include hbatch

theorem runBatch_eq_ok (hp : p.build = .ok b) (hcan : b.CanBegin specs.length) :
    ∃ stats, (b.runBatch s batch mode timeOfDay).1 = .ok stats := by
  obtain ⟨start, hb⟩ := begin_iff.mpr hcan
  obtain ⟨labels, hr, -⟩ := Course.exists_run_drive b.ledger start
  have haccepted := rejected_eq_none hp hb (Course.runs_of_run hr)
  rw [runBatch_of_read hbatch, hb]
  dsimp only
  rw [conclude, haccepted]
  exact ⟨_, rfl⟩

theorem runBatch_eq_panicked (hcan : ¬ b.CanBegin specs.length) :
    ∃ reason, (b.runBatch s batch mode timeOfDay).1 = .error (.panicked reason) := by
  rw [runBatch_of_read hbatch]
  cases hb : b.begin s specs mode (timeOfDay Duration.zero) with
  | ok start => exact absurd (begin_iff.mp ⟨start, hb⟩) hcan
  | error e =>
    obtain ⟨reason, rfl⟩ := panicked_of_begin hb
    exact ⟨reason, rfl⟩

/-- The identifiers of all calls have been drawn when the queue turns out to be too long. -/
theorem runBatch_eq_queueTooLong (hgroups : b.config.iterations ≤ Executor.maxItems)
    (hcalls : b.config.iterations * specs.length < Progress.countBound)
    (hqueue : Executor.maxQueue < b.config.queueCapacity) :
    b.runBatch s batch mode timeOfDay = (.error (.panicked Executor.queueTooLong),
        s.draw (b.identifiersPerRun specs)) := by
  rw [runBatch_of_read hbatch, begin_eq_queueTooLong s mode _ hgroups hcalls hqueue]

end Batch

/-- A bench that was built starts its executor exactly if its queue and its workers can be made, and
it panics in making the queue exactly if that is too long. If the sizes of a run can be made it ends
with statistics, and otherwise it panics: where only the queue is at fault, after the identifiers of
all its calls have been drawn. -/
theorem begins_of_build (hp : p.build = .ok b) :
    (∀ J : Type,
      ((∃ e, (Executor.new b.config.concurrency b.config.queueCapacity : Executor J).start =
        .ok e) ↔
        b.config.queueCapacity ≤ Executor.maxQueue ∧ b.config.concurrency ≤ Executor.maxItems) ∧
      ((Executor.new b.config.concurrency b.config.queueCapacity : Executor J).start =
        .error Executor.queueTooLong ↔
        Executor.maxQueue < b.config.queueCapacity)) ∧
    (∀ s specs mode startedAt, (∃ start, b.begin s specs mode startedAt = .ok start) ↔
        b.CanBegin specs.length) ∧
    ∀ s batch specs mode timeOfDay, CallSpec.readBatch batch = .ok specs →
      (b.CanBegin specs.length → ∃ stats, (b.runBatch s batch mode timeOfDay).1 = .ok stats) ∧
      (¬ b.CanBegin specs.length → ∃ reason, (b.runBatch s batch mode timeOfDay).1 =
          .error (.panicked reason)) ∧
      (b.config.iterations ≤ Executor.maxItems → b.config.iterations * specs.length <
        Progress.countBound → Executor.maxQueue < b.config.queueCapacity →
        b.runBatch s batch mode timeOfDay = (.error (.panicked Executor.queueTooLong),
            s.draw (b.identifiersPerRun specs))) := by
  refine ⟨fun J => ⟨Executor.start_new_eq_ok_iff, Executor.start_new_eq_queueTooLong_iff⟩,
    fun s specs mode startedAt => begin_iff,
    fun s batch specs mode timeOfDay hbatch => ⟨?_, ?_, ?_⟩⟩
  · exact runBatch_eq_ok hbatch s mode timeOfDay hp
  · exact runBatch_eq_panicked hbatch s mode timeOfDay
  · exact runBatch_eq_queueTooLong hbatch s mode timeOfDay

/-! ### The longest queue, and one slot more -/

/-- One worker, and a queue of a given length. -/
def queuePlan (slots : Nat) : BenchPlan Nat where
  config := { concurrency := 1, queueCapacity := slots }
  ledger := some recovering
  handlers := some []

def queueBench (slots : Nat) : Bench Nat where
  config := (queuePlan slots).config
  policy := {}
  ledger := recovering
  handlers := []

theorem begins_of_build_longest :
    (queuePlan (2 ^ 61 - 1)).build = .ok (queueBench (2 ^ 61 - 1)) ∧
      (∃ e, (Executor.new 1 (2 ^ 61 - 1) : Executor Nat).start = .ok e) ∧
      ∃ stats, ((queueBench (2 ^ 61 - 1)).runBatch fresh "[\x7b\"Func\":\"f\"\x7d]" .submit fun _ =>
          ⟨0⟩).1 = .ok stats := by
  have hbuild : (queuePlan (2 ^ 61 - 1)).build = .ok (queueBench (2 ^ 61 - 1)) :=
    BenchPlan.build_of_checkConfig rfl rfl (by decide +kernel)
  obtain ⟨hstart, -, hruns⟩ := begins_of_build hbuild
  have hcan : (queueBench (2 ^ 61 - 1)).CanBegin [({ function := "f" } : CallSpec)].length :=
    ⟨by decide, by decide, by decide, by decide⟩
  exact ⟨hbuild, (hstart Nat).1.mpr ⟨by decide, by decide⟩,
    (hruns fresh _ _ .submit (fun _ => ⟨0⟩) (by decide +kernel)).1 hcan⟩

theorem panicked_of_longQueue :
    (queuePlan (2 ^ 61)).build = .ok (queueBench (2 ^ 61)) ∧
      (Executor.new 1 (2 ^ 61) : Executor Nat).start = .error Executor.queueTooLong ∧
      (queueBench (2 ^ 61)).runBatch fresh "[\x7b\"Func\":\"f\"\x7d]" .submit (fun _ => ⟨0⟩) =
        (.error (.panicked Executor.queueTooLong), fresh.draw 3) := by
  have hbatch : CallSpec.readBatch "[\x7b\"Func\":\"f\"\x7d]" = .ok [{ function := "f" }] := by
    decide +kernel
  exact ⟨BenchPlan.build_of_checkConfig rfl rfl (by decide +kernel),
    Executor.start_new_eq_queueTooLong_iff.mpr (by decide),
    runBatch_eq_queueTooLong hbatch fresh .submit (fun _ => ⟨0⟩) (by decide)
      (by decide) (by decide)⟩

end Bench

end LedgerBench
