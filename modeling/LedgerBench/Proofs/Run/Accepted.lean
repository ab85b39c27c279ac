import LedgerBench.CommandLine.Command
import LedgerBench.Proofs.Run.Accounting
import LedgerBench.Proofs.Run.Progress
/-!
Runs that no queue refuses.

A group is refused where its executor has no room or is not running. A bench that was built has as
many slots as it has groups, and its workers are started before the first group is submitted; so the
refusal, though it is provided for, never comes. What is proved:
  1. `Performs`: the ways in which a bench can perform a batch, over all schedules.
     `performs_runBatch` says that `runBatch` is one of them.
  2. `BenchPlan.fits_of_build`: the check of the queue fails only where the queue is too short.
  3. `Command.fits_of_loadConfig`: it is never too short for the iterations that a command asks for.
  4. `accepted_of_build`: no run is refused a group, at any time, and no performance ends with a
     refusal.
-/

namespace LedgerBench

/-! ## Performances -/

theorem CallSpec.ne_nil_of_readBatch {batch : String} {specs : List CallSpec}
    (h : readBatch batch = .ok specs) : specs ≠ [] := by
  unfold readBatch at h
  split at h
  · cases h
  · unfold checkBatch at h
    split at h
    · cases h
    · rename_i hne
      split at h
      · cases h
      · obtain rfl := Except.ok.inj h
        exact hne

namespace Bench

variable {σ : Type} {p : BenchPlan σ} {b : Bench σ} {s left : Session σ} {specs : List CallSpec}
  {mode : CallMode} {startedAt : Timestamp} {start later : Course σ}

/-- A way to perform a batch: what its groups exchange, what comes back, and the session that is
left. A batch that is none leads to no run, and a run may follow any schedule until it stops. -/
inductive Performs (b : Bench σ) (s : Session σ) (batch : String) (mode : CallMode) :
    List Act → Except RunError RunStatistics → Session σ → Prop where
  | unread {cause : BatchError} (hbatch : CallSpec.readBatch batch = .error cause) :
    Performs b s batch mode [] (.error (.batch cause)) s
  | unbegun {specs : List CallSpec} {startedAt : Timestamp} {e : RunError}
    (hbatch : CallSpec.readBatch batch = .ok specs)
      (hb : b.begin s specs mode startedAt = .error e) :
        Performs b s batch mode [] (.error e) (s.draw (b.identifiersPerRun specs))
  | ran {specs : List CallSpec} {startedAt : Timestamp} {start later : Course σ}
    {labels : List RunLabel} (hbatch : CallSpec.readBatch batch = .ok specs)
      (hb : b.begin s specs mode startedAt = .ok start)
        (hr : start.run b.ledger labels = some later) (hstopped : later.Stopped b.ledger)
      (finishedAt : Timestamp) :
      Performs b s batch mode (start.history b.ledger labels) (conclude later finishedAt)
        ((s.draw (b.identifiersPerRun specs)).leave later.world)

theorem runBatch_of_unread {batch : String} {cause : BatchError}
    (hbatch : CallSpec.readBatch batch = .error cause) (s : Session σ) (mode : CallMode)
    (timeOfDay : Duration → Timestamp) :
    b.runBatch s batch mode timeOfDay = (.error (.batch cause), s) := by
  unfold runBatch
  rw [hbatch]

/-- A batch that can be read is run; the identifiers of the run are drawn before it begins. -/
theorem runBatch_of_read {batch : String} (hbatch : CallSpec.readBatch batch = .ok specs)
    (s : Session σ) (mode : CallMode) (timeOfDay : Duration → Timestamp) :
    b.runBatch s batch mode timeOfDay =
      match b.begin s specs mode (timeOfDay Duration.zero) with
      | .error e => (.error e, s.draw (b.identifiersPerRun specs))
      | .ok start =>
        (conclude (start.drive b.ledger) (timeOfDay (start.drive b.ledger).world.clock),
          (s.draw (b.identifiersPerRun specs)).leave (start.drive b.ledger).world) := by
  unfold runBatch
  rw [hbatch]
  exact if_neg (CallSpec.ne_nil_of_readBatch hbatch)

/-- A run that follows the schedule of `drive` is a way to perform a batch, where there are as many
groups as workers. -/
theorem performs_runBatch (hp : p.build = .ok b)
    (hstaff : b.config.concurrency ≤ b.config.iterations) (s : Session σ) (batch : String)
    (mode : CallMode) (timeOfDay : Duration → Timestamp) :
    ∃ acts, b.Performs s batch mode acts (b.runBatch s batch mode timeOfDay).1
      (b.runBatch s batch mode timeOfDay).2 := by
  obtain ⟨hlimits, hroom⟩ := BenchPlan.limits_of_build hp
  have hiterations : 0 < b.config.iterations := hlimits .iterations
  cases hbatch : CallSpec.readBatch batch with
  | error cause =>
    rw [runBatch_of_unread hbatch]
    exact ⟨[], .unread hbatch⟩
  | ok specs =>
    rw [runBatch_of_read hbatch]
    cases hb : b.begin s specs mode (timeOfDay Duration.zero) with
    | error e => exact ⟨[], .unbegun hbatch hb⟩
    | ok start =>
      obtain ⟨labels, hr, hstopped⟩ :=
        (begun_of_begin hb).exists_run_drive (in_line_of_begin hroom hb) (by omega)
      exact ⟨_, .ran hbatch hb hr hstopped _⟩

/-- What cannot be started panics. -/
theorem panicked_of_begin {e : RunError} (h : b.begin s specs mode startedAt = .error e) :
    ∃ reason, e = .panicked reason := by
  obtain ⟨reason, -, rfl⟩ := begin_eq_error_iff.mp h
  exact ⟨reason, rfl⟩

/-- A run of a bench that was built is never refused a group. -/
theorem rejected_eq_none (hp : p.build = .ok b) (hb : b.begin s specs mode startedAt = .ok start)
    {acts : List Act} (h : Course.Runs b.ledger start acts later) : later.rejected = none := by
  obtain ⟨pool, next, hline⟩ := h.in_line (in_line_of_begin (BenchPlan.limits_of_build hp).2 hb)
  exact hline.accepted

/-- A run that was refused nothing does not end with a refusal. -/
theorem conclude_ne_submission (h : later.rejected = none) (finishedAt : Timestamp) (group : Nat)
    (cause : SubmitError) :
    conclude later finishedAt ≠ .error (.submission group cause) := by
  intro hrefused
  rw [conclude, h] at hrefused
  cases hrefused

/-- What cannot be started is not refused a group. -/
theorem begin_ne_submission (group : Nat) (cause : SubmitError) :
    b.begin s specs mode startedAt ≠ .error (.submission group cause) := by
  intro hrefused
  obtain ⟨reason, hpanic⟩ := panicked_of_begin hrefused
  cases hpanic

theorem Performs.ne_submission (hp : p.build = .ok b) {batch : String} {acts : List Act}
    {result : Except RunError RunStatistics} (h : b.Performs s batch mode acts result left)
    (group : Nat) (cause : SubmitError) : result ≠ .error (.submission group cause) := by
  cases h with
  | unread hbatch =>
    intro hrefused
    cases hrefused
  | unbegun hbatch hb =>
    intro hrefused
    obtain rfl := Except.error.inj hrefused
    exact begin_ne_submission group cause hb
  | ran hbatch hb hr hstopped finishedAt =>
    exact conclude_ne_submission (rejected_eq_none hp hb (Course.runs_of_run hr)) _ group cause

theorem runBatch_ne_submission (hp : p.build = .ok b) (s : Session σ) (batch : String)
    (mode : CallMode) (timeOfDay : Duration → Timestamp) (group : Nat) (cause : SubmitError) :
    (b.runBatch s batch mode timeOfDay).1 ≠ .error (.submission group cause) := by
  cases hbatch : CallSpec.readBatch batch with
  | error unread =>
    rw [runBatch_of_unread hbatch]
    intro hrefused
    cases hrefused
  | ok specs =>
    rw [runBatch_of_read hbatch]
    cases hb : b.begin s specs mode (timeOfDay Duration.zero) with
    | error e =>
      intro hrefused
      obtain rfl := Except.error.inj hrefused
      exact begin_ne_submission group cause hb
    | ok start =>
      obtain ⟨labels, hr, -⟩ := Course.exists_run_drive b.ledger start
      exact conclude_ne_submission (rejected_eq_none hp hb (Course.runs_of_run hr)) _ group cause

end Bench

/-! ## Checked configurations -/

/-- A plan fails over the length of its queue only where that is too short. -/
theorem BenchPlan.fits_of_build {σ : Type} {plan : BenchPlan σ} {iterations capacity : Nat}
    (h : plan.build = .error (.iterationsExceedQueue iterations capacity)) :
    plan.config.queueCapacity < plan.config.iterations := by
  unfold build at h
  split at h
  · cases h
  · cases h
  · split at h
    · cases h
    · rename_i e hcheck
      obtain rfl := Except.error.inj h
      unfold checkConfig at hcheck
      split at hcheck
      · cases hcheck
      · split at hcheck
        · assumption
        · split at hcheck <;> cases hcheck

namespace Command

variable {command : Command} {files : FileReader} {config : Config} {iterations : Nat}

theorem fits_override (h : command.iterations = some iterations) (config : Config) :
    (command.override config).iterations = iterations ∧
      (command.override config).iterations ≤ (command.override config).queueCapacity := by
  unfold override
  rw [h]
  exact ⟨rfl, Nat.le_max_right _ _⟩

/-- The queue of a loaded configuration is long enough for the iterations that the command asks
for. -/
theorem fits_of_loadConfig (hload : command.loadConfig files = .ok config)
    (h : command.iterations = some iterations) :
    config.iterations = iterations ∧ config.iterations ≤ config.queueCapacity := by
  unfold loadConfig at hload
  split at hload
  · obtain rfl := Except.ok.inj hload
    exact fits_override h _
  · split at hload
    · obtain rfl := Except.ok.inj hload
      exact fits_override h _
    · cases hload

end Command

/-! ## Accepted runs -/

namespace Bench

variable {σ : Type} {p : BenchPlan σ} {b : Bench σ}

/-- A bench that was built never refuses a group of its own: at no time of any run, and in no way to
perform a batch. A command that asks for a number of iterations has a configuration with room for
them, whatever its file says, and so the check of the queue lets it pass. -/
theorem accepted_of_build (hp : p.build = .ok b) :
    (∀ s specs mode startedAt start, b.begin s specs mode startedAt = .ok start →
      ∀ labels later, start.run b.ledger labels = some later → later.rejected = none) ∧
    (∀ s batch mode acts result left, b.Performs s batch mode acts result left →
      ∀ group cause, result ≠ .error (.submission group cause)) ∧
    (∀ s batch mode timeOfDay group cause, (b.runBatch s batch mode timeOfDay).1 ≠
        .error (.submission group cause)) ∧
    ∀ (command : Command) files config iterations, command.loadConfig files = .ok config →
      command.iterations = some iterations →
      config.iterations = iterations ∧ config.iterations ≤ config.queueCapacity ∧
      ∀ {τ : Type} (plan : BenchPlan τ), plan.config = config →
        ∀ n capacity, plan.build ≠ .error (.iterationsExceedQueue n capacity) := by
  refine ⟨?_, ?_, ?_, ?_⟩
  · exact fun s specs mode startedAt start hb labels later hr =>
      rejected_eq_none hp hb (Course.runs_of_run hr)
  · exact fun s batch mode acts result left h => h.ne_submission hp
  · exact runBatch_ne_submission hp
  · intro command files config iterations hload hiterations
    obtain ⟨heq, hle⟩ := Command.fits_of_loadConfig hload hiterations
    refine ⟨heq, hle, ?_⟩
    rintro τ plan rfl n capacity hbuild
    exact absurd (BenchPlan.fits_of_build hbuild) (Nat.not_lt_of_le hle)

/-! ### A queue that is just long enough -/

def tightPlan : BenchPlan Nat where
  config := { concurrency := 1, queueCapacity := 2, iterations := 2 }
  ledger := some recovering
  handlers := some []

def tight : Bench Nat where
  config := tightPlan.config
  policy := {}
  ledger := recovering
  handlers := []

/-- A command that asks for more iterations than the queue has slots by default. -/
def manyIterations : Command where
  mode := .submit
  batch := .inline ""
  iterations := some 100

/-- Both groups are queued before the worker takes one, and the queue is full. -/
theorem accepted_of_build_tight :
    ∃ start later, tightPlan.build = .ok tight ∧
      tight.begin fresh [{ function := "put" }] .submit ⟨0⟩ = .ok start ∧
      start.run tight.ledger [.submit, .submit] = some later ∧
      later.executor.pools.map (fun pool => pool.queue.length) = [tight.config.queueCapacity] ∧
      later.rejected = none ∧
      (tight.runBatch fresh "[\x7b\"Func\":\"put\"\x7d]" .submit fun _ => ⟨0⟩).1 ≠
        .error (.submission 1 (.queueFull 2)) ∧
      manyIterations.loadConfig fresh.files = .ok (manyIterations.override {}) ∧
      (manyIterations.override {}).iterations = 100 ∧
      (manyIterations.override {}).iterations ≤ (manyIterations.override {}).queueCapacity ∧
        ({} : Config).queueCapacity = 64 := by
  have hbuild : tightPlan.build = .ok tight :=
    BenchPlan.build_of_checkConfig rfl rfl (by decide +kernel)
  have hrun : ∃ start, tight.begin fresh [{ function := "put" }] .submit ⟨0⟩ = .ok start ∧
      ∃ later, start.run tight.ledger [.submit, .submit] = some later ∧
        later.executor.pools.map (fun pool => pool.queue.length) =
          [tight.config.queueCapacity] := by
    refine ⟨_, rfl, ?_⟩
    apply exists_of_any
    decide +kernel
  obtain ⟨start, hb, later, hr, hfull⟩ := hrun
  obtain ⟨haccepted, -, hbatch, hcommand⟩ := accepted_of_build hbuild
  obtain ⟨hiterations, hle, -⟩ := hcommand manyIterations fresh.files _ 100 rfl rfl
  exact ⟨start, later, hbuild, hb, hr, hfull, haccepted _ _ _ _ _ hb _ _ hr, hbatch _ _ _ _ _ _,
    rfl, hiterations, hle, rfl⟩

end Bench

end LedgerBench
