import LedgerBench.Proofs.Run.Accounting
import LedgerBench.Proofs.Task.Numbered
/-!
Numbers of a run.

All groups of a run take their numbers from one sequence, in whatever order they come to it. What is
proved:
  1. `Runs.numerals`: at any time the numerals that were handed out are those of the numbers after
     the first one, in order and without a gap, and the sequence is at the last of them.
  2. `length_numerals`: a complete run has asked for a number at each `$seq()` expression of the
     batch as it was written, once for each iteration.
  3. `numbers_of_run`: so every number stands in one place, and within a group they grow in the
     order of the places.
-/

namespace LedgerBench

open Program

theorem Text.decimal_injective : Function.Injective Text.decimal := by
  intro m n h
  calc m = Nat.ofDigitChars 10 (Text.decimal m) 0 := Nat.ofDigitChars_ten_toDigits.symm
    _ = Nat.ofDigitChars 10 (Text.decimal n) 0 := by rw [h]
    _ = n := Nat.ofDigitChars_ten_toDigits

/-- As long as nothing wraps, the numbers that follow are the next ones. -/
theorem Sequence.following_eq (s : Sequence) {n : Nat} (h : s.last.toNat + n < 2 ^ 64) :
    s.following n = (List.range' (s.last.toNat + 1) n).map Text.decimal := by
  rw [following, List.range'_eq_map_range, List.map_map]
  refine List.map_congr_left fun i hi => congrArg Text.decimal ?_
  have hlt := List.mem_range.mp hi
  have hsize : UInt64.size = 2 ^ 64 := rfl
  rw [UInt64.toNat_add, UInt64.toNat_ofNat_of_lt' (by omega), Nat.mod_eq_of_lt (by omega)]
  show s.last.toNat + (i + 1) = s.last.toNat + 1 + i
  omega

theorem Sequence.following_add (s : Sequence) (m n : Nat) :
    s.following (m + n) = s.following m ++ Sequence.following ⟨s.last + UInt64.ofNat m⟩ n := by
  induction m generalizing s with
  | zero =>
    have hzero : s.last + UInt64.ofNat 0 = s.last := UInt64.add_zero _
    rw [Nat.zero_add, hzero]
    rfl
  | succ m ih =>
    have hsum : s.last + UInt64.ofNat (m + 1) = s.last + 1 + UInt64.ofNat m := by
      rw [UInt64.ofNat_add m 1, UInt64.add_assoc, UInt64.add_comm (UInt64.ofNat m)]
      rfl
    rw [Nat.add_right_comm, following_succ, following_succ, ih, hsum, List.cons_append]

/-- The numerals that some groups got, in order. -/
def Act.numerals (acts : List Act) : List (List Char) := Program.numerals (acts.map Act.exchange)

namespace Act

theorem numerals_append (xs ys : List Act) : numerals (xs ++ ys) = numerals xs ++ numerals ys := by
  simp only [numerals, List.map_append, Program.numerals_append]

theorem numerals_ofGroup_sublist (group : Nat) (acts : List Act) :
    (Program.numerals (ofGroup group acts)).Sublist (numerals acts) :=
  (List.filter_sublist.map Act.exchange).filterMap Exchange.numeral?

/-- What some groups got, sorted by group. -/
theorem numerals_perm {n : Nat} {acts : List Act} (h : ∀ a ∈ acts, a.group < n) :
    (numerals acts).Perm ((List.range n).flatMap fun g => Program.numerals (ofGroup g acts)) := by
  have hp := ((perm_groups h).map Act.exchange).filterMap Exchange.numeral?
  rw [List.map_flatMap, List.filterMap_flatMap] at hp
  exact hp

end Act

/-! ## The sequence at any time -/

namespace World

variable {σ : Type} (service : Service σ) (w : World σ)

theorem counted_answer (effect : Effect) :
    (⟨effect, (w.answer service effect).answer⟩ : Exchange).Counted := by
  cases effect with
  | resolve form body =>
    cases form with
    | sequence =>
      show if Text.allBlank body then ∃ numeral, (w.scope.resolve .sequence body).1 = .ok numeral
        else (w.scope.resolve .sequence body).1 = .error (.malformed .sequence body)
      rw [Scope.resolve_sequence]
      by_cases hblank : Text.allBlank body
      · rw [if_pos hblank, if_pos hblank]
        exact ⟨_, rfl⟩
      · rw [if_neg hblank, if_neg hblank]
    | random => trivial
    | pad => trivial
    | file => trivial
    | set => trivial
    | reference => trivial
  | now => trivial
  | submit request => trivial
  | query request => trivial
  | sleep delay => trivial
  | emit event => trivial

/-- An effect takes the next number from the sequence, or leaves it. -/
theorem sequence_answer (effect : Effect) :
    let xs := Program.numerals [⟨effect, (w.answer service effect).answer⟩]
    xs = w.scope.sequence.following xs.length ∧
      (w.answer service effect).world.scope.sequence =
        ⟨w.scope.sequence.last + UInt64.ofNat xs.length⟩ := by
  have unchanged : ∀ {effect : Effect}, ¬ effect.AsksNumber →
      (w.answer service effect).world.scope.sequence = w.scope.sequence →
      let xs := Program.numerals [⟨effect, (w.answer service effect).answer⟩]
      xs = w.scope.sequence.following xs.length ∧
        (w.answer service effect).world.scope.sequence =
          ⟨w.scope.sequence.last + UInt64.ofNat xs.length⟩ := by
    intro effect hno hsame
    have hnone : Program.numerals [⟨effect, (w.answer service effect).answer⟩] = [] :=
      numerals_of_not_asksNumber fun x hx => by rwa [List.mem_singleton.mp hx]
    rw [hnone]
    exact ⟨rfl, hsame.trans (congrArg Sequence.mk (UInt64.add_zero _).symm)⟩
  cases effect with
  | resolve form body =>
    by_cases hform : form = .sequence
    · subst hform
      have hresolve := w.scope.resolve_sequence body
      by_cases hblank : Text.allBlank body
      · rw [if_pos hblank] at hresolve
        have hone : Program.numerals
            [⟨.resolve .sequence body, (w.answer service (.resolve .sequence body)).answer⟩] =
            [Text.decimal (w.scope.sequence.last + 1).toNat] := by
          show (Except.toOption (w.scope.resolve .sequence body).1).toList = _
          rw [hresolve]
          rfl
        rw [hone]
        refine ⟨rfl, ?_⟩
        show (w.scope.resolve .sequence body).2.sequence = _
        rw [hresolve]
        rfl
      · rw [if_neg hblank] at hresolve
        have hnone : Program.numerals [⟨.resolve .sequence body,
            (w.answer service (.resolve .sequence body)).answer⟩] = [] := by
          show (Except.toOption (w.scope.resolve .sequence body).1).toList = _
          rw [hresolve]
          rfl
        rw [hnone]
        refine ⟨rfl, ?_⟩
        show (w.scope.resolve .sequence body).2.sequence = _
        rw [hresolve]
        exact congrArg Sequence.mk (UInt64.add_zero _).symm
    · refine unchanged ?_ ((w.scope.resolve_frame form body).1 hform)
      cases form <;> first | exact id | exact absurd rfl hform
  | now => exact unchanged id rfl
  | submit request => exact unchanged id rfl
  | query request => exact unchanged id rfl
  | sleep delay => exact unchanged id rfl
  | emit event => exact unchanged id rfl

end World

namespace Course

variable {σ : Type} {ledger : Ledger σ} {c later : Course σ} {acts : List Act}

/-- The numbers that some groups took are the next ones of the sequence. -/
structure Follows (c : Course σ) (acts : List Act) (later : Course σ) : Prop where
  numerals : Act.numerals acts = c.world.scope.sequence.following (Act.numerals acts).length
  sequence : later.world.scope.sequence =
    ⟨c.world.scope.sequence.last + UInt64.ofNat (Act.numerals acts).length⟩
  counted : ∀ a ∈ acts, a.exchange.Counted

theorem Follows.none (h : later.world.scope.sequence = c.world.scope.sequence) :
    Follows c [] later :=
  ⟨rfl, h.trans (congrArg Sequence.mk (UInt64.add_zero _).symm), fun _ ha => nomatch ha⟩

theorem Step.follows (h : Step ledger c acts later) : Follows c acts later := by
  cases h with
  | submit hmay =>
    exact .none (by rw [submitNext_world])
  | work ha he => exact .none rfl
  | send hg hcall hr => exact .none rfl
  | @act group effect next wakeAt service? service hg hserves hr =>
    obtain ⟨hnumerals, hsequence⟩ := c.world.sequence_answer service effect
    refine ⟨hnumerals, hsequence, fun a ha => ?_⟩
    rw [List.mem_singleton.mp ha]
    exact c.world.counted_answer service effect
  | record hr => exact .none rfl
  | wait clock => exact .none rfl

theorem Runs.follows (h : Runs ledger c acts later) : Follows c acts later := by
  induction h with
  | start c => exact .none rfl
  | @step c mid later made rest head tail ih =>
    have hhead := head.follows
    refine ⟨?_, ?_, ?_⟩
    · rw [Act.numerals_append, List.length_append, Sequence.following_add, ← hhead.sequence,
        ← hhead.numerals, ← ih.numerals]
    · rw [ih.sequence, hhead.sequence, Act.numerals_append, List.length_append, UInt64.ofNat_add,
        UInt64.add_assoc]
    · intro a ha
      rcases List.mem_append.mp ha with ha | ha
      · exact hhead.counted a ha
      · exact ih.counted a ha

end Course

/-! ## The numbers of a complete run -/

namespace Bench

variable {σ : Type} {b : Bench σ} {s : Session σ} {specs : List CallSpec} {mode : CallMode}
  {startedAt : Timestamp} {start later : Course σ} {acts : List Act}

/-- How many numbers one iteration of a batch asks for. -/
def numbersOf (specs : List CallSpec) : Nat :=
  ((specs.flatMap CallSpec.args).map fun arg => blanks arg.toList).sum

theorem map_spec_callsOf (s : Session σ) (specs : List CallSpec) (g : Nat) :
    (callsOf s specs g).map CallTask.spec = specs := by
  apply List.ext_getElem?
  intro i
  simp only [callsOf, groupCalls, List.getElem?_map, List.getElem?_mapIdx, Option.map_map]
  exact Option.map_id'

/-- The arguments that the calls of a group take are those of the batch, with as many numerals as it
asks for. -/
theorem length_numerals {binding : Binding} {is : List (Invocation binding)}
    {ass : List (List Numbered)} {g : Nat} (hcalls : is.map Invocation.call = callsOf s specs g)
    (h : List.Forall₂ Invocation.Takes is ass) :
    (ass.flatten.flatMap Numbered.numerals).length = numbersOf specs := by
  have hspecs : specs = is.map fun i => i.call.spec := by
    rw [← map_spec_callsOf s specs g, ← hcalls, List.map_map]
    rfl
  have htemplates : (is.flatMap fun i => i.call.spec.args) = ass.flatten.map Numbered.template := by
    clear hcalls hspecs
    induction h with
    | nil => rfl
    | cons htakes _ ih =>
      rw [List.flatMap_cons, ih, htakes.args, List.flatten_cons, List.map_append]
  rw [numbersOf, hspecs, List.flatMap_map, htemplates, List.map_map, List.length_flatMap]
  exact congrArg List.sum (List.map_congr_left fun a _ => a.fits)

/-- The groups of a complete run, with the arguments of their calls. -/
theorem Complete.exists_takes (h : b.Complete s specs mode start acts later)
    (hcounted : ∀ a ∈ acts, a.exchange.Counted) {g : Nat} (hg : g < b.config.iterations) :
    ∃ is ass, b.Finished s specs mode acts later g is ∧ List.Forall₂ Invocation.Takes is ass ∧
      Program.numerals (Act.ofGroup g acts) = ass.flatten.flatMap Numbered.numerals ∧
      (Program.numerals (Act.ofGroup g acts)).length = numbersOf specs := by
  obtain ⟨is, hf⟩ := h.finished g hg
  obtain ⟨id, hxs⟩ := hf.exchanges
  have hgroup : ∀ x ∈ Act.ofGroup g acts, x.Counted := by
    intro x hx
    obtain ⟨a, ha, rfl⟩ := List.mem_map.mp hx
    exact hcounted a (List.mem_of_mem_filter ha)
  obtain ⟨ass, htakes, hnumerals⟩ := Task.exists_takes hxs hgroup
  refine ⟨is, ass, hf, htakes, hnumerals, ?_⟩
  rw [hnumerals, length_numerals hf.calls htakes]

/-- Every group asks for as many numbers as an iteration does. -/
theorem Complete.length_numerals_acts (h : b.Complete s specs mode start acts later)
    (hcounted : ∀ a ∈ acts, a.exchange.Counted) :
    (Act.numerals acts).length = b.config.iterations * numbersOf specs := by
  have hsame : ∀ g ∈ List.range b.config.iterations,
      (Program.numerals (Act.ofGroup g acts)).length = numbersOf specs := by
    intro g hg
    obtain ⟨-, -, -, -, -, hlength⟩ := h.exists_takes hcounted (List.mem_range.mp hg)
    exact hlength
  rw [(Act.numerals_perm h.numbered).length_eq, List.length_flatMap, List.map_congr_left hsame]
  simp

/-- The numbers of a complete run. Each group takes its own in the order of its calls, their
arguments and the places in these, and they grow in this order; all groups together take each number
after the one that the run began with once, and as many as the iterations of the batch as it was
written ask for. Nothing else takes a number. -/
theorem numbers_of_run {labels : List RunLabel} (hb : b.begin s specs mode startedAt = .ok start)
    (hr : start.run b.ledger labels = some later)
    (hends : start.groups.length ≤ later.statistics.groupsCompleted)
    (hfit : s.sequence.last.toNat + b.config.iterations * numbersOf specs < 2 ^ 64) :
    ∃ (arguments : Nat → List (List Numbered)) (numbers : Nat → List Nat),
      (∀ g < b.config.iterations,
        (∃ is, b.Finished s specs mode (start.history b.ledger labels) later g is ∧
            List.Forall₂ Invocation.Takes is (arguments g)) ∧
        (arguments g).flatten.flatMap Numbered.numerals = (numbers g).map Text.decimal ∧
          (numbers g).Pairwise (· < ·)) ∧
      ((List.range b.config.iterations).flatMap numbers).Perm
        (List.range' (s.sequence.last.toNat + 1) (b.config.iterations * numbersOf specs)) ∧
      later.world.scope.sequence.last.toNat = s.sequence.last.toNat + b.config.iterations *
        numbersOf specs := by
  have hbegun := begun_of_begin hb
  have hruns := Course.runs_of_run hr
  have hcomplete := hbegun.complete hruns hends
  have hfollows := hruns.follows
  generalize start.history b.ledger labels = acts at *
  have hsequence : start.world.scope.sequence = s.sequence := by
    rw [hbegun.world]
    rfl
  have hperm := Act.numerals_perm hcomplete.numbered
  have hcount := hcomplete.length_numerals_acts hfollows.counted
  have hall : Act.numerals acts =
      (List.range' (s.sequence.last.toNat + 1) (b.config.iterations * numbersOf specs)).map
        Text.decimal := by
    rw [hfollows.numerals, hcount, hsequence]
    exact s.sequence.following_eq hfit
  -- A group's numerals are some of all numerals, in the same order.
  have hgroup : ∀ g, ∃ ns : List Nat,
      ns.Sublist (List.range' (s.sequence.last.toNat + 1) (b.config.iterations * numbersOf specs)) ∧
      Program.numerals (Act.ofGroup g acts) = ns.map Text.decimal := by
    intro g
    have hsub := Act.numerals_ofGroup_sublist g acts
    rwa [hall, List.sublist_map_iff] at hsub
  choose numbers hsublist hnumbers using hgroup
  have harguments : ∀ g, ∃ ass, g < b.config.iterations →
      (∃ is, b.Finished s specs mode acts later g is ∧ List.Forall₂ Invocation.Takes is ass) ∧
        ass.flatten.flatMap Numbered.numerals = (numbers g).map Text.decimal := by
    intro g
    by_cases hg : g < b.config.iterations
    · obtain ⟨is, ass, hf, htake, hnumerals, -⟩ := hcomplete.exists_takes hfollows.counted hg
      exact ⟨ass, fun _ => ⟨⟨is, hf, htake⟩, hnumerals.symm.trans (hnumbers g)⟩⟩
    · exact ⟨[], fun hlt => absurd hlt hg⟩
  choose arguments htaken using harguments
  refine ⟨arguments, numbers, fun g hg => ⟨(htaken g hg).1, (htaken g hg).2, ?_⟩, ?_, ?_⟩
  · exact List.Pairwise.sublist (hsublist g) List.pairwise_lt_range'
  · rw [← List.map_perm_map_iff Text.decimal_injective, ← hall, List.map_flatMap]
    exact (hperm.trans (List.Perm.of_eq (List.flatMap_congr fun g _ => hnumbers g))).symm
  · have hsize : UInt64.size = 2 ^ 64 := rfl
    rw [hfollows.sequence, hcount, hsequence, UInt64.toNat_add,
      UInt64.toNat_ofNat_of_lt' (by omega), Nat.mod_eq_of_lt hfit]

/-! ### Two groups that take numbers in turns -/

/-- A batch that asks for two numbers; an expression with a body that is not blank is none of
them. -/
def numbered : List CallSpec :=
  [{ function := "put", args := ["$set(id,$seq())-$seq(x)"] },
    { function := "get", args := ["$seq( )/$\x7bid\x7d"] }]

/-- A schedule in which the second group takes its numbers after the first one took its first. -/
def interleaved : List RunLabel :=
  [.submit, .submit, .work 0 .check, .work 0 .lock, .work 0 .receive, .work 1 .check, .work 1 .lock,
    .work 1 .receive]
    ++ List.replicate 3 (RunLabel.act 0) ++ List.replicate 18 (RunLabel.act 1) ++ List.replicate 15
      (RunLabel.act 0)
    ++ List.replicate 10 .record

theorem run_interleaved :
    ∃ start, pair.begin fresh numbered .submit ⟨0⟩ = .ok start ∧
      ∃ later, start.run pair.ledger interleaved = some later ∧
        start.groups.length ≤ later.statistics.groupsCompleted := by
  refine ⟨_, rfl, ?_⟩
  apply exists_of_any
  decide +kernel

theorem numbers_of_run_interleaved :
    ∃ start later, pair.begin fresh numbered .submit ⟨0⟩ = .ok start ∧
      start.run pair.ledger interleaved = some later ∧
      start.groups.length ≤ later.statistics.groupsCompleted ∧
      pair.config.iterations * numbersOf numbered = 4 ∧
      ∃ (arguments : Nat → List (List Numbered)) (numbers : Nat → List Nat),
        (∀ g < pair.config.iterations,
          (∃ is, pair.Finished fresh numbered .submit
            (start.history pair.ledger interleaved) later g is ∧
            List.Forall₂ Invocation.Takes is (arguments g)) ∧
          (arguments g).flatten.flatMap Numbered.numerals = (numbers g).map Text.decimal ∧
            (numbers g).Pairwise (· < ·)) ∧
        ((List.range pair.config.iterations).flatMap numbers).Perm [1, 2, 3, 4] ∧
        later.world.scope.sequence.last.toNat = 4 := by
  have hcount : pair.config.iterations * numbersOf numbered = 4 := by decide +kernel
  have hfit : fresh.sequence.last.toNat + pair.config.iterations * numbersOf numbered < 2 ^ 64 := by
    decide +kernel
  obtain ⟨start, hb, later, hr, hends⟩ := run_interleaved
  obtain ⟨arguments, numbers, hgroups, hperm, hlast⟩ := numbers_of_run hb hr hends hfit
  rw [hcount] at hperm hlast
  exact ⟨start, later, hb, hr, hends, hcount, arguments, numbers, hgroups, hperm, hlast⟩

end Bench

end LedgerBench
