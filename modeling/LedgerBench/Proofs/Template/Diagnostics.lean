import LedgerBench.Proofs.Template.Scope
import LedgerBench.Proofs.Template.Tree
import Mathlib.Data.List.Infix
/-!
What an evaluation says about the expressions that it leaves standing.

Each form of the pipeline has one sweep over the text that the sweeps before it have left. An
expression that cannot be resolved is kept as it is written, so a later sweep reads it again, and
may find another expression in it that cannot be resolved either. What is proved:
  1. `Scope.of_resolve_error`: an expression that cannot be resolved has an error of its own form,
     and changes nothing.
  2. `Decomposes.exists_marks`: the diagnostics of a sweep stand in its text from left to right.
  3. `Sweeps.run`, `Sweeps.exists_of`: an evaluation is a sweep for each form, with the diagnostics
     of the sweeps in order.
  4. `Sweeps.unchanged`: sweeps that resolve nothing leave the text and the scope as they are.
  5. `Scope.evaluate_accounted`: the diagnostics of an evaluation are accounted for by its failed
     resolutions and its unterminated forms.
-/

namespace LedgerBench

/-! ## Errors -/

namespace ExpressionError

/-- The form of the expression that an error is about. -/
def form : ExpressionError → Form
  | unterminated form _ => form
  | invalidNumber form _ => form
  | malformed form _ => form
  | unreadableFile _ _ => .file
  | unsetVariable _ => .reference

def isUnterminated : ExpressionError → Bool
  | unterminated _ _ => true
  | _ => false

end ExpressionError

/-- An expression that cannot be resolved has an error of its own form, which is never that it has
no end, and it changes nothing. -/
theorem Scope.of_resolve_error {scope later : Scope} {form : Form} {body : List Char}
    {e : ExpressionError} (h : scope.resolve form body = (.error e, later)) :
    e.form = form ∧ e.isUnterminated = false ∧ later = scope := by
  cases form with
  | sequence =>
    rw [resolve_sequence] at h
    split at h
    · cases h
    · cases h
      exact ⟨rfl, rfl, rfl⟩
  | random =>
    simp only [resolve] at h
    split at h
    · cases h
    · cases h
      exact ⟨rfl, rfl, rfl⟩
  | pad =>
    simp only [resolve, resolvePad] at h
    split at h
    · cases h
      exact ⟨rfl, rfl, rfl⟩
    · split at h
      · cases h
        exact ⟨rfl, rfl, rfl⟩
      · cases h
  | file =>
    simp only [resolve] at h
    split at h
    · cases h
    · cases h
      exact ⟨rfl, rfl, rfl⟩
  | set =>
    rw [resolve_set] at h
    split at h
    · cases h
    · cases h
      exact ⟨rfl, rfl, rfl⟩
  | reference =>
    simp only [resolve] at h
    split at h
    · cases h
    · cases h
      exact ⟨rfl, rfl, rfl⟩

/-! ## Sweeps -/

/-- An expression that was found, and what it came to. -/
structure Finding extends Hit where
  resolution : Resolution

def Finding.failed (f : Finding) : Bool := f.resolution.error?.isSome

/-- What one form made of a text: its expressions from left to right, and what stands behind the
last one. -/
structure Sweep where
  form : Form
  text : List Char
  findings : List Finding
  tail : List Char

namespace Sweep

/-- The text that a sweep leaves. -/
def value (p : Sweep) : List Char :=
  (p.findings.flatMap fun f => f.before ++ p.form.shown f.body f.resolution) ++ p.tail

/-- The errors of the expressions that were not resolved, from left to right. -/
def failures (p : Sweep) : List ExpressionError := p.findings.filterMap fun f => f.resolution.error?

def diagnostics (p : Sweep) : List ExpressionError := p.failures ++ p.form.unterminated p.tail

/-- An opener stands behind the last expression, and no closer behind it. -/
def Unterminated (p : Sweep) : Prop := p.form.opener <:+: p.tail

instance (p : Sweep) : Decidable p.Unterminated := inferInstanceAs (Decidable (_ <:+: _))

/-- A sweep in a scope: it finds what there is to find, and resolves it from left to right. -/
structure Runs (p : Sweep) (scope later : Scope) : Prop where
  parts : Decomposes p.form p.text (p.findings.map Finding.toHit) p.tail
  calls : Calls (Scope.resolveM p.form) scope (p.findings.map fun f => f.body)
    (p.findings.map Finding.resolution) later

end Sweep

/-- Sweeps that follow each other: each is over the text that the one before it leaves. -/
inductive Sweeps : Scope → List Char → List Sweep → Scope → List Char → Prop where
  | nil (scope : Scope) (text : List Char) : Sweeps scope text [] scope text
  | cons {p : Sweep} {ps : List Sweep} {scope next later : Scope} {value : List Char}
    (head : p.Runs scope next)
      (tail : Sweeps next p.value ps later value) : Sweeps scope p.text (p :: ps) later value

/-! ## One sweep -/

namespace Calls

variable {scope later : Scope} {form : Form} {bodies : List (List Char)} {rs : List Resolution}

theorem exists_resolve (h : Calls (Scope.resolveM form) scope bodies rs later) {r : Resolution}
    (hr : r ∈ rs) :
    ∃ scope later body, Scope.resolve scope form body = (r, later) := by
  induction h with
  | done scope => cases hr
  | @call scope next _ body _ _ _ head tail ih =>
    rcases List.mem_cons.mp hr with rfl | hr
    · exact ⟨scope, next, body, head⟩
    · exact ih hr

/-- Calls that all fail change nothing. -/
theorem unchanged (h : Calls (Scope.resolveM form) scope bodies rs later)
    (hfail : ∀ r ∈ rs, r.error?.isSome) : later = scope := by
  induction h with
  | done scope => rfl
  | @call scope next _ body _ r _ head tail ih =>
    rw [List.forall_mem_cons] at hfail
    cases r with
    | ok text => cases hfail.1
    | error e =>
      obtain ⟨-, -, rfl⟩ := Scope.of_resolve_error head
      exact ih hfail.2

theorem exists_findings {hits : List Hit}
    (h : Calls (Scope.resolveM form) scope (hits.map Hit.body) rs later) :
    ∃ findings : List Finding, findings.map Finding.toHit = hits ∧
      findings.map Finding.resolution = rs := by
  induction hits generalizing scope rs with
  | nil =>
    cases h
    exact ⟨[], rfl, rfl⟩
  | cons hit hits ih =>
    cases h with
    | @call _ _ _ _ _ r _ head tail =>
      obtain ⟨findings, rfl, rfl⟩ := ih tail
      exact ⟨⟨hit, r⟩ :: findings, rfl, rfl⟩

end Calls

namespace Sweep

variable {p : Sweep} {scope later : Scope} {e : ExpressionError}

/-- Every form can be swept for in every text. -/
theorem exists_runs (form : Form) (scope : Scope) (text : List Char) :
    ∃ p later, Sweep.Runs p scope later ∧ p.form = form ∧ p.text = text := by
  obtain ⟨hits, tail, hparts⟩ := Decomposes.exists_of form text
  obtain ⟨rs, later, hcalls⟩ := Calls.exists_of (Scope.resolveM form) scope (hits.map Hit.body)
  obtain ⟨findings, rfl, rfl⟩ := hcalls.exists_findings
  rw [List.map_map] at hcalls
  exact ⟨⟨form, text, findings, tail⟩, later, ⟨hparts, hcalls⟩, rfl, rfl⟩

/-- A pass of the evaluation is a sweep. -/
theorem Runs.run (h : p.Runs scope later) :
    (expand p.form (Scope.resolveM p.form) p.text).run scope =
      ({ value := p.value, diagnostics := p.diagnostics }, later) := by
  have hcalls : Calls (Scope.resolveM p.form) scope ((p.findings.map Finding.toHit).map Hit.body)
      (p.findings.map Finding.resolution) later := by
    rw [List.map_map]
    exact h.calls
  have hvalue : p.form.rewritten (p.findings.map Finding.toHit)
      (p.findings.map Finding.resolution) p.tail = p.value := by
    rw [Form.rewritten, List.zipWith_map, List.zipWith_self, ← List.flatMap_def]
    rfl
  rw [run_expand h.parts hcalls, hvalue, List.filterMap_map]
  rfl

/-- A sweep that resolves nothing leaves everything as it is. -/
theorem Runs.unchanged (h : p.Runs scope later) (hfail : ∀ f ∈ p.findings, f.failed) :
    p.value = p.text ∧ later = scope := by
  constructor
  · have hshown : ∀ f ∈ p.findings, f.before ++ p.form.shown f.body f.resolution =
        f.before ++ p.form.written f.body := by
      intro f hf
      have herror := hfail f hf
      cases hr : f.resolution with
      | ok found =>
        rw [Finding.failed, hr] at herror
        cases herror
      | error e => rfl
    rw [h.parts.source_eq, List.flatMap_map, value, List.flatMap_congr hshown]
  · apply h.calls.unchanged
    intro r hr
    obtain ⟨f, hf, rfl⟩ := List.mem_map.mp hr
    exact hfail f hf

/-- Where there is no opener, there is nothing to find. -/
theorem Runs.of_unopened (h : p.Runs scope later) (hopener : ¬ p.form.opener <:+: p.text) :
    p.findings = [] ∧ p.tail = p.text := by
  obtain ⟨form, text, findings, tail⟩ := p
  have hparts := h.parts
  generalize hhits : findings.map Finding.toHit = hits at hparts
  cases hparts with
  | tail _ => exact ⟨List.map_eq_nil_iff.mp hhits, rfl⟩
  | hit opened _ _ => exact absurd opened.isInfix hopener

/-! ### The diagnostics of a sweep -/

theorem length_failures (p : Sweep) : p.failures.length = p.findings.countP Finding.failed := by
  rw [failures, List.length_filterMap_eq_countP]
  rfl

theorem Runs.of_mem_failures (h : p.Runs scope later) (he : e ∈ p.failures) :
    e.form = p.form ∧ e.isUnterminated = false := by
  obtain ⟨f, hf, herror⟩ := List.mem_filterMap.mp he
  obtain ⟨_, _, _, hresolve⟩ := h.calls.exists_resolve (List.mem_map_of_mem hf)
  cases hr : f.resolution with
  | ok found =>
    rw [hr] at herror
    cases herror
  | error e' =>
    rw [hr] at herror hresolve
    obtain rfl : e' = e := Option.some.inj herror
    obtain ⟨hform, hended, -⟩ := Scope.of_resolve_error hresolve
    exact ⟨hform, hended⟩

/-- What is said of the tail: that the expression there has no end, if there is one. -/
theorem unterminated_cases (p : Sweep) :
    ¬ p.Unterminated ∧ p.form.unterminated p.tail = [] ∨
      p.Unterminated ∧ ∃ expression, p.form.unterminated p.tail =
        [.unterminated p.form expression] := by
  by_cases h : p.Unterminated
  · obtain ⟨before, inner, hfirst⟩ := Text.exists_firstAt h
    exact .inr ⟨h, _, unterminated_of_firstAt hfirst⟩
  · exact .inl ⟨h, unterminated_of_unopened h⟩

theorem length_diagnostics (p : Sweep) :
    p.diagnostics.length = p.findings.countP Finding.failed + if p.Unterminated then 1 else 0 := by
  rw [diagnostics, List.length_append, length_failures]
  rcases p.unterminated_cases with ⟨hno, hnil⟩ | ⟨hyes, expression, hone⟩
  · rw [hnil, if_neg hno]
    rfl
  · rw [hone, if_pos hyes]
    rfl

theorem diagnostics_eq_nil_iff (p : Sweep) :
    p.diagnostics = [] ↔ (∀ f ∈ p.findings, ¬ f.failed) ∧ ¬ p.Unterminated := by
  rw [← List.length_eq_zero_iff, length_diagnostics, Nat.add_eq_zero_iff, List.countP_eq_zero]
  simp

/-- The diagnostics of a sweep are of its form, and where one says that an expression has no end it
is the last. -/
theorem Runs.diagnostics_spec (h : p.Runs scope later) :
    (∀ e ∈ p.diagnostics, e.form = p.form) ∧ p.diagnostics.Pairwise fun d _ =>
      d.isUnterminated = false := by
  have hfailures : ∀ e ∈ p.failures, e.form = p.form ∧ e.isUnterminated = false :=
    fun e => h.of_mem_failures
  have hpairwise : p.failures.Pairwise fun d _ => d.isUnterminated = false :=
    List.pairwise_of_forall_mem_list fun d hd _ _ => (hfailures d hd).2
  rw [diagnostics, List.pairwise_append]
  rcases p.unterminated_cases with ⟨-, hnil⟩ | ⟨-, expression, hone⟩
  · rw [hnil, List.append_nil]
    refine ⟨fun e he => (hfailures e he).1, hpairwise, .nil, ?_⟩
    intro d hd e he
    cases he
  · rw [hone]
    refine ⟨?_, hpairwise, List.pairwise_singleton _ _, fun d hd _ _ => (hfailures d hd).2⟩
    intro e he
    rcases List.mem_append.mp he with he | he
    · exact (hfailures e he).1
    · rw [List.mem_singleton.mp he]
      rfl

end Sweep

/-! ### Where the diagnostics of a sweep stand -/

/-- Errors, each with a place in a text at which an opener of the form stands; the places go from
left to right. -/
structure Marks (form : Form) (text : List Char) (errors : List ExpressionError)
    (marks : List (Nat × ExpressionError)) : Prop where
  errors : marks.map Prod.snd = errors
  ordered : marks.Pairwise fun m n => m.1 < n.1
  opened : ∀ m ∈ marks, form.opener <+: text.drop m.1

namespace Marks

variable {form : Form} {text : List Char} {errors : List ExpressionError}
  {marks : List (Nat × ExpressionError)}

theorem cons (h : Marks form text errors marks) (place : Nat)
    (hplace : form.opener <+: text.drop place) (hlt : ∀ m ∈ marks, place < m.1)
    (e : ExpressionError) : Marks form text (e :: errors) ((place, e) :: marks) where
  errors := by rw [List.map_cons, h.errors]
  ordered := List.pairwise_cons.mpr ⟨hlt, h.ordered⟩
  opened := List.forall_mem_cons.mpr ⟨hplace, h.opened⟩

/-- Behind another text all places are further on. -/
theorem append (h : Marks form text errors marks) (front : List Char) :
    Marks form (front ++ text) errors (marks.map fun m => (front.length + m.1, m.2)) where
  errors := by
    rw [List.map_map]
    exact h.errors
  ordered := by
    rw [List.pairwise_map]
    exact h.ordered.imp fun hlt => Nat.add_lt_add_left hlt front.length
  opened := by
    intro m hm
    obtain ⟨inner, hinner, rfl⟩ := List.mem_map.mp hm
    rw [List.drop_length_add_append]
    exact h.opened inner hinner

end Marks

/-- The diagnostics of a sweep stand in the text from left to right. -/
theorem Decomposes.exists_marks {form : Form} {s tail : List Char} {findings : List Finding}
    (h : Decomposes form s (findings.map Finding.toHit) tail) :
    ∃ marks, Marks form s (findings.filterMap (fun f => f.resolution.error?) ++
        form.unterminated tail) marks := by
  generalize hhits : findings.map Finding.toHit = hits at h
  induction h generalizing findings with
  | @tail s hnone =>
    obtain rfl := List.map_eq_nil_iff.mp hhits
    have hempty : Marks form s [] [] := ⟨rfl, .nil, by simp⟩
    by_cases hin : form.opener <:+: s
    · obtain ⟨before, inner, hfirst⟩ := Text.exists_firstAt hin
      refine ⟨[(before.length, .unterminated form (form.opener ++ inner))], ?_⟩
      rw [unterminated_of_firstAt hfirst]
      refine hempty.cons before.length ?_ (by simp) _
      rw [hfirst.split, List.append_assoc, List.drop_left]
      exact List.prefix_append _ _
    · refine ⟨[], ?_⟩
      rw [unterminated_of_unopened hin]
      exact hempty
  | @hit s before inner body rest tail hits opened closed more ih =>
    obtain ⟨f, fs, rfl, hf, hfs⟩ := List.map_eq_cons_iff.mp hhits
    obtain ⟨marks, hmarks⟩ := ih hfs
    -- The expression with what stands in front of it, and then the text behind it.
    have hsplit : s = (before ++ form.opener ++ body ++ [form.closer]) ++ rest := by
      rw [opened.split, closed.split]
      simp only [List.append_assoc]
    have hbehind := hmarks.append (before ++ form.opener ++ body ++ [form.closer])
    rw [← hsplit] at hbehind
    cases hr : f.resolution with
    | ok found =>
      rw [List.filterMap_cons_none (by rw [hr]; rfl)]
      exact ⟨_, hbehind⟩
    | error e =>
      rw [List.filterMap_cons_some (by rw [hr]; rfl)]
      refine ⟨_, hbehind.cons before.length ?_ ?_ e⟩
      · rw [opened.split, List.append_assoc, List.drop_left]
        exact List.prefix_append _ _
      · intro m hm
        obtain ⟨inner, -, rfl⟩ := List.mem_map.mp hm
        simp only [List.length_append, List.length_singleton]
        omega

/-! ## All sweeps -/

namespace Sweeps

variable {scope later : Scope} {text value : List Char} {ps : List Sweep}

theorem exists_of (forms : List Form) (scope : Scope) (text : List Char) :
    ∃ ps later value, Sweeps scope text ps later value ∧ ps.map Sweep.form = forms := by
  induction forms generalizing scope text with
  | nil => exact ⟨[], scope, text, .nil scope text, rfl⟩
  | cons form forms ih =>
    obtain ⟨p, next, hruns, rfl, rfl⟩ := Sweep.exists_runs form scope text
    obtain ⟨ps, later, value, hmore, rfl⟩ := ih next p.value
    exact ⟨p :: ps, later, value, .cons hruns hmore, rfl⟩

/-- The stages of an evaluation are sweeps, whose diagnostics follow each other. -/
theorem run (h : Sweeps scope text ps later value) (ds : List ExpressionError) :
    ((ps.map Sweep.form).foldlM (Evaluation.stage Scope.resolveM)
      { value := text, diagnostics := ds }).run scope =
      ({ value, diagnostics := ds ++ ps.flatMap Sweep.diagnostics }, later) := by
  induction h generalizing ds with
  | nil scope text =>
    rw [List.flatMap_nil, List.append_nil]
    rfl
  | @cons p ps scope next later value head tail ih =>
    have hstage :
        (Evaluation.stage Scope.resolveM { value := p.text, diagnostics := ds } p.form).run scope =
        ({ value := p.value, diagnostics := ds ++ p.diagnostics }, next) := by
      rw [Evaluation.stage, StateT.run_bind, head.run]
      rfl
    rw [List.map_cons, List.foldlM_cons, StateT.run_bind, hstage, List.flatMap_cons,
      ← List.append_assoc]
    exact ih (ds ++ p.diagnostics)

theorem exists_runs (h : Sweeps scope text ps later value) {p : Sweep} (hp : p ∈ ps) :
    ∃ scope later, p.Runs scope later := by
  induction h with
  | nil => cases hp
  | cons head tail ih =>
    rcases List.mem_cons.mp hp with rfl | hp
    · exact ⟨_, _, head⟩
    · exact ih hp

/-- Sweeps that resolve nothing leave everything as it is. -/
theorem unchanged (h : Sweeps scope text ps later value)
    (hfail : ∀ p ∈ ps, ∀ f ∈ p.findings, f.failed) : value = text ∧ later = scope := by
  induction h with
  | nil scope text => exact ⟨rfl, rfl⟩
  | cons head tail ih =>
    rw [List.forall_mem_cons] at hfail
    obtain ⟨htext, rfl⟩ := head.unchanged hfail.1
    obtain ⟨rfl, rfl⟩ := ih hfail.2
    exact ⟨htext, rfl⟩

/-- Where there is no opener at all, no sweep finds anything. -/
theorem of_unopened (h : Sweeps scope text ps later value)
    (hopener : ∀ form : Form, ¬ form.opener <:+: text) :
    ∀ p ∈ ps, p.findings = [] ∧ p.tail = text := by
  induction h with
  | nil => simp
  | @cons p ps scope next later value head tail ih =>
    obtain ⟨hnone, htail⟩ := head.of_unopened (hopener p.form)
    have hvalue : p.value = p.text := by
      rw [Sweep.value, hnone, htail, List.flatMap_nil, List.nil_append]
    rw [hvalue] at ih
    exact List.forall_mem_cons.mpr ⟨⟨hnone, htail⟩, ih hopener⟩

end Sweeps

theorem Form.pairwise_pipeline : Form.pipeline.Pairwise fun f g => f.place < g.place := by decide

/-- The diagnostics of an evaluation, accounted for by what its sweeps found. -/
structure Accounted (ps : List Sweep) (diagnostics : List ExpressionError) : Prop where
  length : diagnostics.length = (ps.flatMap Sweep.findings).countP Finding.failed + ps.countP
    fun p => p.Unterminated
  /-- Those of one form go from left to right. -/
  ordered : ∀ p ∈ ps, ∃ marks, Marks p.form p.text p.diagnostics marks
  /-- They are grouped by form, in the order of the pipeline. -/
  grouped : diagnostics.Pairwise fun d e => d.form.place ≤ e.form.place
  /-- An expression without an end is said of a form last of all, and so at most once. -/
  last : diagnostics.Pairwise fun d e => d.isUnterminated → d.form ≠ e.form
  nil_iff : diagnostics = [] ↔ ∀ p ∈ ps, (∀ f ∈ p.findings, ¬ f.failed) ∧ ¬ p.Unterminated

theorem length_diagnostics (ps : List Sweep) : (ps.flatMap Sweep.diagnostics).length =
    (ps.flatMap Sweep.findings).countP Finding.failed + ps.countP fun p => p.Unterminated := by
  induction ps with
  | nil => rfl
  | cons p ps ih =>
    rw [List.flatMap_cons, List.flatMap_cons, List.length_append, List.countP_append,
      List.countP_cons, p.length_diagnostics, ih]
    by_cases h : p.Unterminated
    · simp only [h, if_true, decide_true]
      omega
    · simp only [h, if_false, decide_false, Bool.false_eq_true]
      omega

/-- Sweeps of forms in the order of the pipeline have their diagnostics accounted for. -/
theorem Sweeps.accounted {scope later : Scope} {text value : List Char} {ps : List Sweep}
    (h : Sweeps scope text ps later value) (hforms : ps.map Sweep.form = Form.pipeline) :
    Accounted ps (ps.flatMap Sweep.diagnostics) := by
  have hplaces : ps.Pairwise fun p q => p.form.place < q.form.place := by
    have hpipeline := Form.pairwise_pipeline
    rw [← hforms, List.pairwise_map] at hpipeline
    exact hpipeline
  have hform : ∀ p ∈ ps, ∀ e ∈ p.diagnostics, e.form = p.form := by
    intro p hp
    obtain ⟨_, _, hruns⟩ := h.exists_runs hp
    exact hruns.diagnostics_spec.1
  constructor
  case length => exact length_diagnostics ps
  case ordered =>
    intro p hp
    obtain ⟨_, _, hruns⟩ := h.exists_runs hp
    exact hruns.parts.exists_marks
  case grouped =>
    rw [List.pairwise_flatMap]
    constructor
    · intro p hp
      apply List.pairwise_of_forall_mem_list
      intro d hd e he
      rw [hform p hp d hd, hform p hp e he]
    · apply hplaces.imp_of_mem
      intro p q hp hq hlt d hd e he
      rw [hform p hp d hd, hform q hq e he]
      exact Nat.le_of_lt hlt
  case last =>
    rw [List.pairwise_flatMap]
    constructor
    · intro p hp
      obtain ⟨_, _, hruns⟩ := h.exists_runs hp
      apply hruns.diagnostics_spec.2.imp
      intro d e hd hyes
      rw [hd] at hyes
      cases hyes
    · apply hplaces.imp_of_mem
      intro p q hp hq hlt d hd e he _ hsame
      rw [hform p hp d hd, hform q hq e he] at hsame
      rw [hsame] at hlt
      exact Nat.lt_irrefl _ hlt
  case nil_iff =>
    rw [List.flatMap_eq_nil_iff]
    exact forall₂_congr fun p _ => p.diagnostics_eq_nil_iff

/-- Whatever is evaluated, and in whatever scope: each form of the pipeline has one sweep, and the
diagnostics are those of the sweeps in order, those of a sweep from left to right. There is one for
each failed resolution and one for each form that met an expression without an end. If no expression
is resolved, and so where no form's opener occurs, the text and the scope stay as they are. -/
theorem Scope.evaluate_accounted (scope : Scope) (template : List Char) :
    ∃ ps later value, ps.map Sweep.form = Form.pipeline ∧ Sweeps scope template ps later value ∧
      scope.evaluate template = ({ value, diagnostics := ps.flatMap Sweep.diagnostics }, later) ∧
      Accounted ps (ps.flatMap Sweep.diagnostics) ∧
      ((∀ p ∈ ps, ∀ f ∈ p.findings, f.failed) → value = template ∧ later = scope) ∧
      ((∀ form : Form, ¬ form.opener <:+: template) →
        scope.evaluate template = ({ value := template, diagnostics := [] }, scope)) := by
  obtain ⟨ps, later, value, h, hforms⟩ := Sweeps.exists_of Form.pipeline scope template
  have hrun : scope.evaluate template =
      ({ value, diagnostics := ps.flatMap Sweep.diagnostics }, later) := by
    have hstages := h.run []
    rw [hforms, List.nil_append] at hstages
    exact hstages
  have haccounted := h.accounted hforms
  refine ⟨ps, later, value, hforms, h, hrun, haccounted, h.unchanged, ?_⟩
  intro hopener
  have hfound := h.of_unopened hopener
  have hfail : ∀ p ∈ ps, ∀ f ∈ p.findings, f.failed := by
    intro p hp f hf
    rw [(hfound p hp).1] at hf
    cases hf
  have hnil : ps.flatMap Sweep.diagnostics = [] := by
    rw [haccounted.nil_iff]
    intro p hp
    obtain ⟨hnone, htail⟩ := hfound p hp
    rw [hnone, Sweep.Unterminated, htail]
    exact ⟨by simp, hopener p.form⟩
  obtain ⟨rfl, rfl⟩ := h.unchanged hfail
  rw [hrun, hnil]

/-- A text without an end for one form has an expression in it that another form cannot resolve: the
same characters are diagnosed twice. -/
example : (({} : Scope).evaluate "$pad($\x7bx\x7d".toList).1 =
    { value := "$pad($\x7bx\x7d".toList, diagnostics := [.unterminated .pad
        "$pad($\x7bx\x7d".toList, .unsetVariable "x".toList] } := by
  decide +kernel

end LedgerBench
