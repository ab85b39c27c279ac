import LedgerBench.CommandLine.Report
import LedgerBench.Proofs.Run.InFlight
import LedgerBench.Proofs.Run.Queue
import LedgerBench.Proofs.Run.Summary
/-!
What a run is reported by.

A summary goes by the number of calls that ended, a response by the list of responses, and a failure
report by the lists of failures and of retried errors. What they say together rests on what these
have to do with each other in a complete run. What is proved:
  1. `summaryBlock_of_hasMeans`, `isSome_responseLine_iff`, `isSome_failureReport_iff`: what each
     text goes by.
  2. `exitCode_printResult_iff`, `output_printResult_ne_empty`: a run is printed unless its summary
     panics over a mean, and ends well if no call failed.
  3. `reported_of_run`: each complete run has the texts that its calls and their attempts ask for,
     never both a summary and a response, and at least one of the three, unless it has a summary to
     print and its durations have no means.
  4. `unsummarized_of_run_long`: a run of so many calls that it has no summary.
-/

namespace LedgerBench

open Program

/-! ## Texts of statistics -/

/-- The durations that a summary shows the means of have means. -/
structure RunStatistics.HasMeans (s : RunStatistics) : Prop where
  all : DurationSummary.HasMean s.allDurations
  success : DurationSummary.HasMean s.successDurations
  failure : DurationSummary.HasMean s.failureDurations

namespace Report

variable {s : RunStatistics}

/-- Fewer calls than 32 bits can count, and durations that add up to a duration, have means. -/
theorem hasMeans_of_lt (hcount : s.allDurations.length < DurationSummary.countBound)
    (hsum : Duration.totalNanos s.allDurations < Duration.limit) :
    s.HasMeans := by
  have hlength : s.allDurations.length = s.successDurations.length + s.failureDurations.length :=
    List.length_append
  have htotal : Duration.totalNanos s.allDurations = _ :=
    Duration.totalNanos_append s.successDurations s.failureDurations
  refine ⟨DurationSummary.hasMean_of_lt hcount hsum, DurationSummary.hasMean_of_lt ?_ ?_,
    DurationSummary.hasMean_of_lt ?_ ?_⟩ <;> omega

theorem summaryBlock_of_le (h : s.invocations ≤ 1) : summaryBlock s = .ok none := if_pos h

theorem summaryBlock_of_hasMeans (h : 1 < s.invocations) (hmeans : s.HasMeans) :
    ∃ block, summaryBlock s = .ok (some block) := by
  obtain ⟨all, hall⟩ := DurationSummary.ofSamples_ok_iff.mpr hmeans.all
  obtain ⟨success, hsuccess⟩ := DurationSummary.ofSamples_ok_iff.mpr hmeans.success
  obtain ⟨failure, hfailure⟩ := DurationSummary.ofSamples_ok_iff.mpr hmeans.failure
  unfold summaryBlock
  rw [if_neg (Nat.not_le_of_lt h), hall, hsuccess, hfailure]
  exact ⟨_, rfl⟩

theorem summaryBlock_of_not_hasMeans (h : 1 < s.invocations) (hmeans : ¬ s.HasMeans) :
    ∃ cause, summaryBlock s = .error cause := by
  cases hblock : summaryBlock s with
  | error cause => exact ⟨cause, rfl⟩
  | ok block? =>
    exfalso
    apply hmeans
    unfold summaryBlock at hblock
    rw [if_neg (Nat.not_le_of_lt h)] at hblock
    -- The block was made, so none of the three summaries failed.
    cases hall : DurationSummary.ofSamples s.allDurations with
    | error cause =>
      rw [hall] at hblock
      cases hblock
    | ok all =>
      cases hsuccess : DurationSummary.ofSamples s.successDurations with
      | error cause =>
        rw [hall, hsuccess] at hblock
        cases hblock
      | ok success =>
        cases hfailure : DurationSummary.ofSamples s.failureDurations with
        | error cause =>
          rw [hall, hsuccess, hfailure] at hblock
          cases hblock
        | ok failure =>
          exact ⟨DurationSummary.ofSamples_ok_iff.mp ⟨all, hall⟩,
            DurationSummary.ofSamples_ok_iff.mp ⟨success, hsuccess⟩,
            DurationSummary.ofSamples_ok_iff.mp ⟨failure, hfailure⟩⟩

theorem isSome_responseLine_iff :
    (responseLine s).isSome = true ↔ s.responses.length = 1 ∧ s.invocations = 1 := by
  unfold responseLine
  split
  · rename_i r hr
    rw [hr]
    split
    · simp [*]
    · simp [*]
  · rename_i hother
    have hlength : s.responses.length ≠ 1 := by
      intro hone
      obtain ⟨r, hr⟩ := List.length_eq_one_iff.mp hone
      exact hother r hr
    simp [hlength]

theorem isSome_failureReport_iff :
    (failureReport s).isSome = true ↔ s.failures ≠ [] ∨ s.transientErrors ≠ [] := by
  unfold failureReport
  split
  · rename_i hnone
    simp [hnone]
  · rename_i hsome
    rw [not_and_or] at hsome
    simpa using hsome

end Report

/-! ## The end of the program -/

namespace CommandLine

open Report

variable {s : RunStatistics}

theorem exitCode_ending (s : RunStatistics) (output : String) :
    (ending s output).exitCode = 0 ↔ s.failures = [] := by
  unfold ending RunStatistics.isSuccess
  cases s.failures with
  | nil => simp
  | cons f rest => simp [Printed.failed]

theorem output_ending (s : RunStatistics) (output : String) :
    (ending s output).output = output := by
  unfold ending
  split
  · rfl
  · rfl

theorem exitCode_printResult_iff :
    (printResult .text (.ok s)).exitCode = 0 ↔ (∃ block?, summaryBlock s = .ok block?) ∧
      s.failures = [] := by
  show (printText s).exitCode = 0 ↔ _
  unfold printText
  cases summaryBlock s with
  | error cause => simp [Printed.aborted, Printed.abortCode]
  | ok block? =>
    cases block? with
    | none => simp [exitCode_ending]
    | some block => simp [exitCode_ending]

theorem printedLine_ne_empty {line? : Option String} (h : line?.isSome = true) :
    printedLine line? ≠ "" := by
  obtain ⟨line, rfl⟩ := Option.isSome_iff_exists.mp h
  simp [printedLine]

/-- Whatever texts there are, they are printed. -/
theorem output_printResult_ne_empty {block? : Option String} (hblock : summaryBlock s = .ok block?)
    (h : block?.isSome = true ∨ (responseLine s).isSome = true ∨ (failureReport s).isSome = true) :
    (printResult .text (.ok s)).output ≠ "" := by
  show (printText s).output ≠ ""
  unfold printText
  rw [hblock]
  cases block? with
  | none =>
    rw [output_ending]
    rcases h with hblock | hresponse | hfailure
    · cases hblock
    · simp [printedLine_ne_empty hresponse]
    · simp [printedLine_ne_empty hfailure]
  | some block =>
    rw [output_ending]
    simp [printedLine]

end CommandLine

/-! ## Complete runs -/

theorem failures_eq_nil_iff (os : List Outcome) :
    os.filterMap Outcome.failure? = [] ↔ ∀ o ∈ os, o.error = none := by
  simp [List.filterMap_eq_nil_iff, Outcome.failure?]

theorem retriedErrors_eq_nil_iff (os : List Outcome) :
    os.flatMap RunStatistics.retriedErrors = [] ↔ ∀ o ∈ os, o.retried = [] := by
  simp [List.flatMap_eq_nil_iff, RunStatistics.retriedErrors]

/-- A call that succeeded has an error for each attempt but the last, so that some are recorded
exactly if there were two attempts or more. -/
theorem Invocation.shown_iff {binding : Binding} (i : Invocation binding) :
    i.outcome.error ≠ none ∨ i.outcome.retried ≠ [] ↔ i.outcome.error ≠ none ∨
      2 ≤ (tries i.exchanges).length := by
  by_cases herror : i.outcome.error = none
  · have hno : ¬ i.Panicked := by
      intro hpanicked
      obtain ⟨settled, hsettled, -⟩ := i.settled_of_error_none herror
      obtain ⟨reason, hr⟩ := hpanicked
      rw [hr] at hsettled
      cases hsettled
    have hlength : i.outcome.retried.length + 1 = (tries i.exchanges).length := by
      rw [← i.attempts_eq_tries]
      exact i.length_retried_iff.mpr fun hpanicked => absurd hpanicked hno
    rw [← List.length_pos_iff]
    simp only [herror, ne_eq, not_true_eq_false, false_or]
    omega
  · simp [herror]

/-- The texts of a run with some calls, and how the program ends that prints them. -/
structure Report.Covers {binding : Binding} (s : RunStatistics)
    (is : List (Invocation binding)) : Prop where
  summary : (∃ block, summaryBlock s = .ok (some block)) ↔ 2 ≤ s.expected ∧ s.HasMeans
  aborted : (∃ cause, summaryBlock s = .error cause) ↔ 2 ≤ s.expected ∧ ¬ s.HasMeans
  response : (responseLine s).isSome = true ↔ s.expected = 1 ∧ ∀ i ∈ is, i.outcome.error = none
  failures : (failureReport s).isSome = true ↔ ∃ i ∈ is, i.outcome.error ≠ none ∨
    2 ≤ (tries i.exchanges).length
  exclusive : (∃ block, summaryBlock s = .ok (some block)) → (responseLine s).isSome = false
  exhaustive : s.expected < 2 ∨ s.HasMeans →
    (∃ block, summaryBlock s = .ok (some block)) ∨ (responseLine s).isSome = true ∨
      (failureReport s).isSome = true
  printed : s.expected < 2 ∨ s.HasMeans → (CommandLine.printResult .text (.ok s)).output ≠ ""
  exitCode : (CommandLine.printResult .text (.ok s)).exitCode = 0 ↔
    s.succeeded = s.expected ∧ (s.expected < 2 ∨ s.HasMeans)

/-- What the texts of a run with at least one call rest on. -/
structure Report.Holds {binding : Binding} (s : RunStatistics)
    (is : List (Invocation binding)) : Prop where
  expected_pos : 0 < s.expected
  ended : s.succeeded + s.failures.length = s.expected
  responses : s.responses.length = s.succeeded
  durations : s.allDurations.length = s.expected
  failures : s.failures = [] ↔ ∀ i ∈ is, i.outcome.error = none
  shown : s.failures ≠ [] ∨ s.transientErrors ≠ [] ↔ ∃ i ∈ is, i.outcome.error ≠ none ∨
    i.outcome.retried ≠ []

namespace Report.Holds

variable {binding : Binding} {s : RunStatistics} {is : List (Invocation binding)}

theorem failures_eq_nil (h : Holds s is) : s.failures = [] ↔ s.succeeded = s.expected := by
  have hended := h.ended
  rw [← List.length_eq_zero_iff]
  omega

theorem response_iff (h : Holds s is) :
    (responseLine s).isSome = true ↔ s.expected = 1 ∧ ∀ i ∈ is, i.outcome.error = none := by
  have hinvocations : s.invocations = s.expected := h.ended
  rw [isSome_responseLine_iff, hinvocations, h.responses, ← h.failures, h.failures_eq_nil]
  omega

theorem failures_iff (h : Holds s is) :
    (failureReport s).isSome = true ↔ ∃ i ∈ is, i.outcome.error ≠ none ∨
      2 ≤ (tries i.exchanges).length := by
  rw [isSome_failureReport_iff, h.shown]
  simp only [Invocation.shown_iff]

theorem exitCode_iff (h : Holds s is) :
    (CommandLine.printResult .text (.ok s)).exitCode = 0 ↔ (∃ block?, summaryBlock s = .ok block?) ∧
      s.succeeded = s.expected := by
  rw [CommandLine.exitCode_printResult_iff, h.failures_eq_nil]

/-- A run of one call has no summary. Either the call succeeded, and there is a response, or it is a
failure to report. -/
theorem covers_of_lt (h : Holds s is) (hone : s.expected < 2) : Covers s is := by
  have hinvocations : s.invocations = s.expected := h.ended
  have hpos := h.expected_pos
  have hblock : summaryBlock s = .ok none := summaryBlock_of_le (by omega)
  have hshown : (responseLine s).isSome = true ∨ (failureReport s).isSome = true := by
    by_cases hall : ∀ i ∈ is, i.outcome.error = none
    · exact .inl (h.response_iff.mpr ⟨by omega, hall⟩)
    · simp only [not_forall] at hall
      obtain ⟨i, hi, herror⟩ := hall
      exact .inr (h.failures_iff.mpr ⟨i, hi, .inl herror⟩)
  refine ⟨?_, ?_, h.response_iff, h.failures_iff, ?_, fun _ => .inr hshown,
    fun _ => CommandLine.output_printResult_ne_empty hblock (.inr hshown), ?_⟩
  · simp [hblock, Nat.not_le_of_lt hone]
  · simp [hblock, Nat.not_le_of_lt hone]
  · simp [hblock]
  · simp [h.exitCode_iff, hblock, hone]

theorem no_response (h : Holds s is) (hmany : 2 ≤ s.expected) :
    (responseLine s).isSome = false := by
  rw [Bool.eq_false_iff, ne_eq, h.response_iff]
  omega

theorem covers_of_hasMeans (h : Holds s is) (hmany : 2 ≤ s.expected) (hmeans : s.HasMeans) :
    Covers s is := by
  have hinvocations : s.invocations = s.expected := h.ended
  obtain ⟨block, hblock⟩ := summaryBlock_of_hasMeans (by omega) hmeans
  refine ⟨?_, ?_, h.response_iff, h.failures_iff, fun _ => h.no_response hmany,
    fun _ => .inl ⟨block, hblock⟩,
    fun _ => CommandLine.output_printResult_ne_empty hblock (.inl rfl), ?_⟩
  · simp [hblock, hmany, hmeans]
  · simp [hblock, hmeans]
  · simp [h.exitCode_iff, hblock, hmeans]

/-- A summary that cannot be made stops the program, whatever the calls came to. -/
theorem covers_of_not_hasMeans (h : Holds s is) (hmany : 2 ≤ s.expected) (hmeans : ¬ s.HasMeans) :
    Covers s is := by
  have hinvocations : s.invocations = s.expected := h.ended
  obtain ⟨cause, hblock⟩ := summaryBlock_of_not_hasMeans (by omega) hmeans
  have hnot : ¬ (s.expected < 2 ∨ s.HasMeans) := not_or.mpr ⟨Nat.not_lt_of_le hmany, hmeans⟩
  refine ⟨?_, ?_, h.response_iff, h.failures_iff, fun _ => h.no_response hmany,
    fun hmay => absurd hmay hnot, fun hmay => absurd hmay hnot, ?_⟩
  · simp [hblock, hmeans]
  · simp [hblock, hmany, hmeans]
  · rw [h.exitCode_iff, hblock]
    constructor
    · intro hends
      obtain ⟨⟨_, hprinted⟩, -⟩ := hends
      cases hprinted
    · intro hends
      exact absurd hends.2 hnot

theorem hasMeans_of_lt (h : Holds s is) (hcount : s.expected < DurationSummary.countBound)
    (hsum : Duration.totalNanos s.allDurations < Duration.limit) : s.HasMeans :=
  Report.hasMeans_of_lt (h.durations ▸ hcount) hsum

/-- As many calls as 32 bits can count, or a multiple of that, leave no number to divide by. -/
theorem not_hasMeans_of_mod (h : Holds s is)
    (hcount : s.expected % DurationSummary.countBound = 0) : ¬ s.HasMeans := by
  intro hmeans
  have hlength := h.durations
  rcases hmeans.all with hnil | ⟨-, hne⟩
  · have hpos := h.expected_pos
    rw [hnil, List.length_nil] at hlength
    omega
  · exact hne (hlength ▸ hcount)

theorem covers (h : Holds s is) : Covers s is := by
  rcases Nat.lt_or_ge s.expected 2 with hone | hmany
  · exact h.covers_of_lt hone
  · by_cases hmeans : s.HasMeans
    · exact h.covers_of_hasMeans hmany hmeans
    · exact h.covers_of_not_hasMeans hmany hmeans

end Report.Holds

namespace Bench

variable {σ : Type} {b : Bench σ} {s : Session σ} {specs : List CallSpec} {mode : CallMode}
  {startedAt finishedAt : Timestamp} {start later : Course σ} {acts : List Act}
  {labels : List RunLabel} {stats : RunStatistics}

/-- The statistics of a complete run with at least one call. -/
theorem Complete.holds (h : b.Complete s specs mode start acts later)
    (hbegun : b.Begun s specs mode startedAt start)
    (hcalls : 0 < b.config.iterations * specs.length)
    (hstats : conclude later finishedAt = .ok stats) :
    ∃ is : Nat → List (Invocation (b.binding mode)),
      (∀ g < b.config.iterations, b.Finished s specs mode acts later g (is g)) ∧
      stats.expected = b.config.iterations * specs.length ∧
        Report.Holds stats ((List.range b.config.iterations).flatMap is) := by
  obtain ⟨is, his, hout, -⟩ := h.outcomes_perm
  rw [← List.map_flatMap] at hout
  have haccounts := RunStatistics.accounts_recordAll ⟨s.ids s.drawn⟩ b.config.concurrency startedAt
    h.ends h.countP_isStart h.tasks_perm h.length_outcomes
  have hstatistics := h.statistics
  rw [hbegun.statistics] at hstatistics
  rw [← hstatistics] at haccounts
  rw [RunStatistics.recordAll_eq] at hstatistics
  have hfailures :
      later.statistics.failures = (outcomes (Act.events acts)).filterMap Outcome.failure? := by
    rw [hstatistics]
    rfl
  have htransient : later.statistics.transientErrors =
      (outcomes (Act.events acts)).flatMap RunStatistics.retriedErrors := by
    rw [hstatistics]
    rfl
  rw [conclude, h.accepted] at hstats
  obtain rfl := Except.ok.inj hstats
  refine ⟨is, his, haccounts.expected, ?_, haccounts.ended, haccounts.responses, ?_, ?_, ?_⟩
  · rw [haccounts.expected]
    exact hcalls
  · show (later.statistics.successDurations ++ later.statistics.failureDurations).length =
      later.statistics.expected
    rw [List.length_append, haccounts.successDurations, haccounts.failureDurations, haccounts.ended]
  · show later.statistics.failures = [] ↔ _
    rw [hfailures, failures_eq_nil_iff]
    simp only [hout.mem_iff, List.forall_mem_map]
  · show later.statistics.failures ≠ [] ∨ later.statistics.transientErrors ≠ [] ↔ _
    rw [hfailures, htransient, ne_eq, ne_eq, failures_eq_nil_iff, retriedErrors_eq_nil_iff]
    simp only [hout.mem_iff, List.forall_mem_map, not_forall, exists_prop, ← exists_or,
      ← and_or_left]

/-- Every complete run of a bench that was built is covered by its texts: each is there exactly if
the calls of the run and their attempts ask for it. A run of several calls whose durations have no
means stops the program over its summary; they have means where there are fewer calls than 32 bits
can count and the durations add up to a duration. -/
theorem reported_of_run {p : BenchPlan σ} (hp : p.build = .ok b) (hspecs : specs ≠ [])
    (hb : b.begin s specs mode startedAt = .ok start) (hr : start.run b.ledger labels = some later)
    (hends : start.groups.length ≤ later.statistics.groupsCompleted)
    (hstats : conclude later finishedAt = .ok stats) :
    ∃ is : Nat → List (Invocation (b.binding mode)),
      (∀ g < b.config.iterations,
          b.Finished s specs mode (start.history b.ledger labels) later g (is g)) ∧
      stats.expected = b.config.iterations * specs.length ∧
      (stats.expected < DurationSummary.countBound →
          Duration.totalNanos stats.allDurations < Duration.limit → stats.HasMeans) ∧
      Report.Covers stats ((List.range b.config.iterations).flatMap is) := by
  obtain ⟨hbegun, hruns⟩ := runs_of_begin hb hr
  have hiterations : 0 < b.config.iterations := (BenchPlan.limits_of_build hp).1 .iterations
  have hcalls := Nat.mul_pos hiterations (List.length_pos_of_ne_nil hspecs)
  obtain ⟨is, his, hexpected, hholds⟩ := (hbegun.complete hruns hends).holds hbegun hcalls hstats
  exact ⟨is, his, hexpected, hholds.hasMeans_of_lt, hholds.covers⟩

/-! ### Two calls, one of which panicked -/

theorem reported_of_run_turns :
    pairPlan.build = .ok pair ∧
      ∃ start later stats, pair.begin fresh [{ function := "put" }] .submit ⟨0⟩ = .ok start ∧
        start.run pair.ledger turns = some later ∧
        start.groups.length ≤ later.statistics.groupsCompleted ∧ conclude later ⟨1⟩ = .ok stats ∧
        stats.HasMeans ∧
        (∃ block, Report.summaryBlock stats = .ok (some block)) ∧
        (Report.responseLine stats).isSome = false ∧
        (CommandLine.printResult .text (.ok stats)).exitCode ≠ 0 ∧
        ∃ is : Nat → List (Invocation (pair.binding .submit)),
          (∀ g < 2, pair.Finished fresh [{ function := "put" }] .submit
            (start.history pair.ledger turns) later g (is g)) ∧
          Report.Covers stats ((List.range 2).flatMap is) := by
  have hbuild : pairPlan.build = .ok pair :=
    BenchPlan.build_of_checkConfig rfl rfl (by decide +kernel)
  have hrun : ∃ start, pair.begin fresh [{ function := "put" }] .submit ⟨0⟩ = .ok start ∧
      ∃ later, start.run pair.ledger turns = some later ∧
        start.groups.length ≤ later.statistics.groupsCompleted ∧
        later.rejected = none ∧ later.statistics.succeeded = 1 ∧
        Duration.totalNanos later.statistics.allDurations = 0 := by
    refine ⟨_, rfl, ?_⟩
    apply exists_of_any
    decide +kernel
  obtain ⟨start, hb, later, hr, hends, haccepted, hsucceeded, htotal⟩ := hrun
  obtain ⟨stats, hstats, hdurations, hsame⟩ : ∃ stats, conclude later ⟨1⟩ = .ok stats ∧
      stats.allDurations = later.statistics.allDurations ∧
        stats.succeeded = later.statistics.succeeded := by
    rw [conclude, haccepted]
    exact ⟨_, rfl, rfl, rfl⟩
  obtain ⟨is, his, hexpected, hmeans, hcovers⟩ :=
    reported_of_run hbuild (by simp) hb hr hends hstats
  replace hmeans : stats.HasMeans := by
    apply hmeans
    · rw [hexpected]
      decide
    · rw [hdurations, htotal]
      decide
  have hsummary := hcovers.summary.mpr ⟨Nat.le_of_eq hexpected.symm, hmeans⟩
  refine ⟨hbuild, start, later, stats, hb, hr, hends, hstats, hmeans, hsummary,
    hcovers.exclusive hsummary, ?_, is, his, hcovers⟩
  rw [ne_eq, hcovers.exitCode, hexpected, hsame, hsucceeded]
  simp [pair]

/-! ### As many calls as 32 bits can count -/

def longPlan : BenchPlan Nat where
  config := {
    concurrency := 1
    iterations := DurationSummary.countBound
    queueCapacity := DurationSummary.countBound }
  ledger := some recovering
  handlers := some []

def longBench : Bench Nat where
  config := longPlan.config
  policy := {}
  ledger := recovering
  handlers := []

/-- A complete run without a summary block: its number of calls is zero in 32 bits, so that there is
nothing to divide their durations by, and the program stops over that. -/
theorem unsummarized_of_run_long :
    longPlan.build = .ok longBench ∧
      ∃ start labels later stats, longBench.begin fresh [{ function := "put" }] .submit
        ⟨0⟩ = .ok start ∧
        start.run longBench.ledger labels = some later ∧ later.Stopped longBench.ledger ∧
        conclude later ⟨1⟩ = .ok stats ∧
        2 ≤ stats.expected ∧ stats.invocations = stats.expected ∧
        ¬ (∃ block, Report.summaryBlock stats = .ok (some block)) ∧
        (∃ cause, Report.summaryBlock stats = .error cause) ∧
          (CommandLine.printResult .text (.ok stats)).exitCode ≠ 0 := by
  have hbuild : longPlan.build = .ok longBench :=
    BenchPlan.build_of_checkConfig rfl rfl (by decide +kernel)
  have hcan : longBench.CanBegin [({ function := "put" } : CallSpec)].length :=
    ⟨by decide, by decide, by decide, by decide⟩
  obtain ⟨start, hb⟩ : ∃ start, longBench.begin fresh [{ function := "put" }] .submit ⟨0⟩ =
      .ok start := begin_iff.mpr hcan
  have hbegun := begun_of_begin hb
  have hline := in_line_of_begin (BenchPlan.limits_of_build hbuild).2 hb
  obtain ⟨labels, hr, hstopped⟩ := hbegun.exists_run_drive hline (by decide)
  have hcomplete := hbegun.complete_of_stopped hline (Course.runs_of_run hr) hstopped
  obtain ⟨stats, hstats⟩ : ∃ stats, conclude (start.drive longBench.ledger) ⟨1⟩ = .ok stats := by
    rw [conclude, hcomplete.accepted]
    exact ⟨_, rfl⟩
  obtain ⟨is, -, hexpected, hholds⟩ := hcomplete.holds hbegun (by decide) hstats
  have hmany : 2 ≤ stats.expected := by
    rw [hexpected]
    decide
  have hmeans : ¬ stats.HasMeans := by
    apply hholds.not_hasMeans_of_mod
    rw [hexpected]
    decide
  have hcovers := hholds.covers
  refine ⟨hbuild, start, labels, _, stats, hb, hr, hstopped, hstats, hmany,
    hholds.ended, ?_, ?_, ?_⟩
  · exact fun hblock => hmeans (hcovers.summary.mp hblock).2
  · exact hcovers.aborted.mpr ⟨hmany, hmeans⟩
  · intro hends
    rcases (hcovers.exitCode.mp hends).2 with hone | hmay
    · omega
    · exact hmeans hmay

end Bench

end LedgerBench
