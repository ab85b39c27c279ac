import LedgerBench.Proofs.Template.Scope
import LedgerBench.Proofs.Template.Tree
/-!
Well-nested templates are evaluated like expressions of a call-by-value language.

`Piece.evaluate` is that language's interpreter: it goes through a template from left to right,
evaluates a body before the expression that the body belongs to, and looks references up when
everything else is done. An evaluation instead makes one pass over the text for each form. What is
proved:
  1. `Replays`: the interpreter's resolutions in its order, as a run over the scope. Expressions of
     different forms do not notice each other, so a run may be sorted by form (`Replays.sorted`).
  2. `run_pipeline`: the passes make the same resolutions in the sorted order.
  3. `evaluate_of_wellNested`: an evaluation yields what the interpreter yields.
-/

namespace LedgerBench

/-! ## The interpreter -/

mutual

/-- Evaluates a piece: its body from left to right, and then the expression with the text that the
body came to. -/
def Piece.interpret (scope : Scope) : Piece → ResolvedPiece × Scope
  | .literal text => (.literal text, scope)
  | .expression form body =>
    let (vs, scope) := interpretAll scope body
    let (r, scope) := scope.resolve form (ResolvedPiece.valueOf vs)
    (.expression form vs r, scope)

def Piece.interpretAll (scope : Scope) : List Piece → List ResolvedPiece × Scope
  | [] => ([], scope)
  | p :: rest =>
    let (v, scope) := p.interpret scope
    let (vs, scope) := interpretAll scope rest
    (v :: vs, scope)

end

/-- A reference that stands outside of all bodies, looked up in a scope. -/
def ResolvedPiece.settle (later : Scope) : ResolvedPiece → ResolvedPiece
  | .expression .reference body _ =>
    .expression .reference body (later.resolve .reference (valueOf body)).1
  | v => v

/-- Evaluates a template. References are looked up last. -/
def Piece.evaluate (scope : Scope) (ps : List Piece) : List ResolvedPiece × Scope :=
  let (vs, later) := interpretAll scope ps
  (vs.map (ResolvedPiece.settle later), later)

mutual

theorem Piece.text_interpret :
    ∀ (scope : Scope) (p : Piece), (p.interpret scope).1.text 0 = p.source
  | _, .literal _ => rfl
  | scope, .expression form body => by
    rw [interpret, ResolvedPiece.text, if_neg (Nat.not_lt_zero _),
      textOf_interpretAll scope body, source]

theorem Piece.textOf_interpretAll :
    ∀ (scope : Scope) (ps : List Piece),
      ResolvedPiece.textOf 0 (interpretAll scope ps).1 = sourceOf ps
  | _, [] => rfl
  | scope, p :: rest => by
    rw [interpretAll, ResolvedPiece.textOf, text_interpret scope p,
      textOf_interpretAll _ rest, sourceOf]

end

theorem ResolvedPiece.text_settle (later : Scope) (v : ResolvedPiece) :
    (v.settle later).text 0 = v.text 0 := by
  unfold settle
  split <;> simp [text]

theorem ResolvedPiece.textOf_map_settle (later : Scope) (vs : List ResolvedPiece) :
    textOf 0 (vs.map (settle later)) = textOf 0 vs := by
  induction vs with
  | nil => rfl
  | cons v rest ih => rw [List.map_cons, textOf, textOf, text_settle, ih]

/-- Before the first pass nothing is expanded. -/
theorem Piece.textOf_evaluate (scope : Scope) (ps : List Piece) :
    ResolvedPiece.textOf 0 (evaluate scope ps).1 = sourceOf ps :=
  (ResolvedPiece.textOf_map_settle _ _).trans (textOf_interpretAll scope ps)

/-! ## Runs over a scope -/

/-- Expressions are resolved one after the other. -/
inductive Replays : Scope → List Expansion → Scope → Prop where
  | done (scope : Scope) : Replays scope [] scope
  | step {scope next later : Scope} {e : Expansion} {es : List Expansion}
      (head : scope.resolve e.form e.body = (e.resolution, next)) (tail : Replays next es later) :
        Replays scope (e :: es) later

namespace Replays

variable {scope next later : Scope} {e f : Expansion} {es fs : List Expansion}

theorem append (h : Replays scope es next) (h' : Replays next fs later) :
    Replays scope (es ++ fs) later := by
  induction h with
  | done _ => exact h'
  | step head _ ih => exact .step head (ih h')

theorem split (h : Replays scope (es ++ fs) later) :
    ∃ next, Replays scope es next ∧ Replays next fs later := by
  induction es generalizing scope with
  | nil => exact ⟨scope, .done scope, h⟩
  | cons e es ih =>
    cases h with
    | step head tail =>
      obtain ⟨next, hes, hfs⟩ := ih tail
      exact ⟨next, .step head hes, hfs⟩

theorem swap (h : Replays scope (e :: f :: es) later) (hne : e.form ≠ f.form)
    (he : e.form ≠ .reference) (hf : f.form ≠ .reference) : Replays scope (f :: e :: es) later := by
  cases h with
  | @step _ s _ _ _ heade tail =>
    cases tail with
    | @step _ t _ _ _ headf tail =>
      obtain ⟨hfirst, hboth⟩ := scope.resolve_comm hne he hf e.body f.body
      have hback := (scope.resolve_comm hne.symm hf he f.body e.body).1
      rw [heade] at hfirst hboth hback
      rw [headf] at hfirst hboth
      have hsecond : (scope.resolve f.form f.body).2.resolve e.form e.body = (e.resolution, t) :=
        Prod.ext hback hboth.symm
      have hswapped : scope.resolve f.form f.body =
          (f.resolution, (scope.resolve f.form f.body).2) := Prod.ext hfirst.symm rfl
      exact .step hswapped (.step hsecond tail)

/-- An expression may be resolved after others of another form. -/
theorem sink (h : Replays scope (e :: fs ++ es) later) (hne : ∀ x ∈ fs, e.form ≠ x.form)
    (he : e.form ≠ .reference) (hfs : ∀ x ∈ fs, x.form ≠ .reference) :
    Replays scope (fs ++ e :: es) later := by
  induction fs generalizing scope with
  | nil => exact h
  | cons f fs ih =>
    have hswap := h.swap (hne f List.mem_cons_self) he (hfs f List.mem_cons_self)
    cases hswap with
    | step head tail =>
      refine .step head (ih tail ?_ ?_)
      · exact fun x hx => hne x (List.mem_cons_of_mem _ hx)
      · exact fun x hx => hfs x (List.mem_cons_of_mem _ hx)

/-- The expressions of one form may be resolved before the others. -/
theorem gather (h : Replays scope es later) (hes : ∀ x ∈ es, x.form ≠ .reference) (form : Form) :
    Replays scope (Expansion.ofForm form es ++ es.filter fun x => x.form ≠ form) later := by
  induction h with
  | done scope => exact .done scope
  | @step scope next later e es head tail ih =>
    have hes' : ∀ x ∈ es, x.form ≠ .reference := fun x hx => hes x (List.mem_cons_of_mem _ hx)
    have hmore := Replays.step head (ih hes')
    by_cases he : e.form = form
    · simpa [Expansion.ofForm, he] using hmore
    · have hother : ∀ x ∈ Expansion.ofForm form es, e.form ≠ x.form := by
        intro x hx
        rwa [(by simpa using (List.mem_filter.mp hx).2 : x.form = form)]
      have hplain : ∀ x ∈ Expansion.ofForm form es, x.form ≠ .reference :=
        fun x hx => hes' x (List.mem_of_mem_filter hx)
      simpa [Expansion.ofForm, he] using hmore.sink hother (hes e List.mem_cons_self) hplain

/-- A run may be sorted by form. -/
theorem sorted (h : Replays scope es later) {forms : List Form} (hnodup : forms.Nodup)
    (hlast : .reference ∉ forms) (hes : ∀ x ∈ es, x.form ∈ forms) :
    Replays scope (forms.flatMap fun form => Expansion.ofForm form es) later := by
  induction forms generalizing scope es with
  | nil =>
    have : es = [] := List.eq_nil_iff_forall_not_mem.mpr fun x hx => nomatch hes x hx
    subst this
    exact h
  | cons form forms ih =>
    rw [List.nodup_cons] at hnodup
    have hes' : ∀ x ∈ es, x.form ≠ .reference := fun x hx heq => hlast (heq ▸ hes x hx)
    obtain ⟨next, hform, hothers⟩ := (h.gather hes' form).split
    have hsorted :=
      ih hothers hnodup.2 (fun hmem => hlast (List.mem_cons_of_mem _ hmem)) fun x hx => by
      obtain ⟨hx, hne⟩ := List.mem_filter.mp hx
      exact (List.mem_cons.mp (hes x hx)).resolve_left (by simpa using hne)
    have hsame : ∀ g ∈ forms, Expansion.ofForm g (es.filter fun x => x.form ≠ form) =
        Expansion.ofForm g es := by
      intro g hg
      have hne : g ≠ form := fun heq => hnodup.1 (heq ▸ hg)
      rw [Expansion.ofForm, List.filter_filter]
      refine List.filter_congr fun x _ => ?_
      by_cases hx : x.form = g
      · simp [hx, hne]
      · simp [hx]
    rw [List.flatMap_cons, List.flatMap_congr hsame] at *
    exact hform.append hsorted

/-- References leave no trace in a scope. -/
theorem without_references (h : Replays scope es later) :
    Replays scope (es.filter fun x => x.form ≠ .reference) later := by
  induction h with
  | done scope => exact .done scope
  | @step scope next later e es head tail ih =>
    by_cases he : e.form = .reference
    · have hnext : next = scope := by
        have := congrArg Prod.snd head
        rw [he, Scope.resolve_reference] at this
        exact this.symm
      subst hnext
      simpa [he] using ih
    · simpa [he] using Replays.step head ih

theorem calls {form : Form} (h : Replays scope es later) (hes : ∀ x ∈ es, x.form = form) :
    Calls (Scope.resolveM form) scope (es.map Expansion.body)
      (es.map Expansion.resolution) later := by
  induction h with
  | done scope => exact .done scope
  | @step scope next later e es head tail ih =>
    obtain rfl := hes e List.mem_cons_self
    exact .call head (ih fun x hx => hes x (List.mem_cons_of_mem _ hx))

end Replays

/-! ## The interpreter's run -/

mutual

theorem Piece.replays_interpret :
    ∀ (scope : Scope) (p : Piece), Replays scope (p.interpret scope).1.expansions
      (p.interpret scope).2
  | scope, .literal _ => .done scope
  | scope, .expression form body => by
    have hbody := replays_interpretAll scope body
    rw [interpret, ResolvedPiece.expansions]
    exact hbody.append (.step rfl (.done _))

theorem Piece.replays_interpretAll :
    ∀ (scope : Scope) (ps : List Piece),
      Replays scope (ResolvedPiece.expansionsOf (interpretAll scope ps).1) (interpretAll scope ps).2
  | scope, [] => .done scope
  | scope, p :: rest => by
    have hp := replays_interpret scope p
    have hrest := replays_interpretAll (p.interpret scope).2 rest
    rw [interpretAll, ResolvedPiece.expansionsOf]
    exact hp.append hrest

end

def Expansion.settle (later : Scope) (e : Expansion) : Expansion :=
  if e.form = .reference then { e with resolution := (later.resolve .reference e.body).1 } else e

theorem Expansion.map_settle_of_ne {later : Scope} {es : List Expansion}
    (h : ∀ e ∈ es, e.form ≠ .reference) :
    es.map (settle later) = es := by
  have hsame : ∀ e ∈ es, e.settle later = e := fun e he => if_neg (h e he)
  exact (List.map_congr_left hsame).trans (List.map_id es)

theorem Expansion.ofForm_map_settle (later : Scope) (form : Form) (es : List Expansion) :
    ofForm form (es.map (settle later)) = (ofForm form es).map (settle later) := by
  have hform : ∀ e : Expansion, (e.settle later).form = e.form := by
    intro e
    unfold settle
    split <;> rfl
  rw [ofForm, ofForm, List.filter_map]
  congr 1
  exact List.filter_congr fun e _ => by simp [hform]

/-- References stand outside of all bodies, so looking them up again changes no other expression. -/
theorem ResolvedPiece.expansionsOf_map_settle {later : Scope} {vs : List ResolvedPiece}
    (h : WellNested (vs.map (settle later))) :
    expansionsOf (vs.map (settle later)) = (expansionsOf vs).map (Expansion.settle later) := by
  have within : ∀ {form : Form} {body : List ResolvedPiece}, isNestedAll form.place body = true →
      (expansionsOf body).map (Expansion.settle later) = expansionsOf body := by
    intro form body hbody
    refine Expansion.map_settle_of_ne fun e he heq => ?_
    have hlt := place_lt_of_isNestedAll body hbody e he
    have hle := form.place_le
    rw [heq] at hlt
    omega
  induction vs with
  | nil => rfl
  | cons v rest ih =>
    have hv := h _ List.mem_cons_self
    have hrest := ih fun w hw => h w (List.mem_cons_of_mem _ hw)
    rw [List.map_cons, expansionsOf, expansionsOf, List.map_append, hrest]
    congr 1
    cases v with
    | literal t => rfl
    | expression form body r =>
      have hbody : isNestedAll form.place body = true := by
        cases form <;> exact (Bool.and_eq_true_iff.mp hv).1
      rw [expansions, List.map_append, within hbody]
      cases form <;> rfl

/-- References looked up in a scope are a run that stays there. -/
theorem Replays.of_references (later : Scope) {es : List Expansion}
    (h : ∀ e ∈ es, e.form = .reference) :
    Replays later (es.map (Expansion.settle later)) later := by
  induction es with
  | nil => exact .done later
  | cons e es ih =>
    have he := h e List.mem_cons_self
    have hlook : later.resolve (e.settle later).form (e.settle later).body =
        ((e.settle later).resolution, later) := by
      rw [Expansion.settle, if_pos he, he]
      exact Prod.ext rfl (later.resolve_reference e.body)
    exact .step hlook (ih fun x hx => h x (List.mem_cons_of_mem _ hx))

theorem Expansion.form_of_mem_ofForm {form : Form} {es : List Expansion} {e : Expansion}
    (h : e ∈ ofForm form es) :
    e.form = form := by
  simpa using (List.mem_filter.mp h).2

/-- A run in which references are looked up last may be sorted by form. -/
theorem Replays.settled {scope later : Scope} {es : List Expansion} (h : Replays scope es later) :
    Replays scope (Form.pipeline.flatMap fun form =>
        Expansion.ofForm form (es.map (Expansion.settle later))) later := by
  have hforms : ∀ e ∈ es.filter (fun e => e.form ≠ .reference),
      e.form ∈ [Form.sequence, .random, .pad, .file, .set] := by
    intro e he
    have hne : e.form ≠ .reference := by simpa using (List.mem_filter.mp he).2
    revert hne
    cases e.form <;> decide
  have hsorted := h.without_references.sorted (by decide) (by decide) hforms
  have hothers : ∀ form ∈ [Form.sequence, .random, .pad, .file, .set],
      Expansion.ofForm form (es.map (Expansion.settle later)) =
        Expansion.ofForm form (es.filter fun e => e.form ≠ .reference) := by
    intro form hform
    have hne : form ≠ .reference := by
      rintro rfl
      revert hform
      decide
    rw [Expansion.ofForm_map_settle, Expansion.map_settle_of_ne fun e he =>
      (Expansion.form_of_mem_ofForm he).symm ▸ hne, Expansion.ofForm, Expansion.ofForm,
      List.filter_filter]
    refine List.filter_congr fun e _ => ?_
    by_cases he : e.form = form
    · simp [he, hne]
    · simp [he]
  have hreferences :
      Replays later (Expansion.ofForm .reference (es.map (Expansion.settle later))) later := by
    rw [Expansion.ofForm_map_settle]
    exact .of_references later fun e he => Expansion.form_of_mem_ofForm he
  have hpipeline : Form.pipeline = [.sequence, .random, .pad, .file, .set] ++ [.reference] := rfl
  rw [hpipeline, List.flatMap_append, List.flatMap_congr hothers, List.flatMap_singleton]
  exact hsorted.append hreferences

/-- The expressions of an evaluated template, sorted by form, are a run that ends where the
evaluation ends. -/
theorem Piece.replays_evaluate {scope : Scope} {ps : List Piece}
    (h : ResolvedPiece.WellNested (evaluate scope ps).1) :
    Replays scope (Form.pipeline.flatMap fun form =>
      Expansion.ofForm form (ResolvedPiece.expansionsOf (evaluate scope ps).1))
      (evaluate scope ps).2 := by
  have hsettled := ResolvedPiece.expansionsOf_map_settle h
  have hrun := (replays_interpretAll scope ps).settled
  rwa [← hsettled] at hrun

/-! ## The passes -/

/-- What is reported of some expressions, form by form. -/
def Expansion.errors (forms : List Form) (es : List Expansion) : List ExpressionError :=
  forms.flatMap fun form => (ofForm form es).filterMap fun e => e.resolution.error?

/-- A pass over a well-nested tree resolves the expressions of its form. -/
theorem run_stage {vs : List ResolvedPiece} (h : ResolvedPiece.WellNested vs) {form : Form}
    {scope later : Scope}
    (hrun : Replays scope (Expansion.ofForm form (ResolvedPiece.expansionsOf vs)) later)
    (ds : List ExpressionError) :
    (Evaluation.stage Scope.resolveM { value := ResolvedPiece.textOf form.place vs,
                                       diagnostics := ds } form).run scope =
      ({ value := ResolvedPiece.textOf (form.place + 1) vs
         diagnostics :=
           ds ++ Expansion.errors [form] (ResolvedPiece.expansionsOf vs) }, later) := by
  obtain ⟨hits, tail, hparts, hbodies, htext, hends⟩ :=
    (ResolvedPiece.passes_of_wellNested form h).decomposes
  have hcalls := hrun.calls fun e he => Expansion.form_of_mem_ofForm he
  rw [← hbodies] at hcalls
  have hexpand := run_expand hparts hcalls
  rw [htext, hends] at hexpand
  have hstage : (Evaluation.stage Scope.resolveM
      { value := ResolvedPiece.textOf form.place vs, diagnostics := ds } form).run scope =
      (fun found : Evaluation × Scope =>
        ({ found.1 with diagnostics := ds ++ found.1.diagnostics }, found.2))
          ((expand form (Scope.resolveM form) (ResolvedPiece.textOf form.place vs)).run scope) :=
            rfl
  rw [hstage, hexpand]
  simp [Expansion.errors, List.filterMap_map]

/-- Passes of forms that follow each other in the pipeline. -/
theorem run_stages {vs : List ResolvedPiece} (h : ResolvedPiece.WellNested vs) {forms : List Form}
    {k : Nat} (hplaces : forms.map Form.place = List.range' k forms.length) {scope later : Scope}
    (hrun : Replays scope (forms.flatMap fun form =>
      Expansion.ofForm form (ResolvedPiece.expansionsOf vs)) later) (ds : List ExpressionError) :
    (forms.foldlM (Evaluation.stage Scope.resolveM)
      { value := ResolvedPiece.textOf k vs, diagnostics := ds }).run scope =
      ({ value := ResolvedPiece.textOf (k + forms.length) vs
         diagnostics := ds ++ Expansion.errors forms (ResolvedPiece.expansionsOf vs) }, later) := by
  induction forms generalizing k scope ds with
  | nil =>
    cases hrun
    simp [Expansion.errors]
    rfl
  | cons form forms ih =>
    rw [List.map_cons, List.length_cons, List.range'_succ, List.cons.injEq] at hplaces
    obtain ⟨rfl, hplaces⟩ := hplaces
    obtain ⟨next, hform, hforms⟩ := Replays.split hrun
    have hmore := ih hplaces hforms (ds ++ Expansion.errors [form] (ResolvedPiece.expansionsOf vs))
    rw [List.foldlM_cons, StateT.run_bind, run_stage h hform]
    have hlength : form.place + (form :: forms).length = form.place + 1 + forms.length := by
      rw [List.length_cons]
      omega
    rw [hlength]
    refine hmore.trans ?_
    simp [Expansion.errors]

/-- All passes over a template that is well nested once it is evaluated. -/
theorem run_pipeline {scope : Scope} {ps : List Piece}
    (h : ResolvedPiece.WellNested (Piece.evaluate scope ps).1) :
    scope.evaluate (Piece.sourceOf ps) =
      ({ value := ResolvedPiece.valueOf (Piece.evaluate scope ps).1
         diagnostics := Expansion.errors Form.pipeline
           (ResolvedPiece.expansionsOf (Piece.evaluate scope ps).1) },
        (Piece.evaluate scope ps).2) := by
  have hstages := run_stages h (k := 0) rfl (Piece.replays_evaluate h) []
  rw [Piece.textOf_evaluate] at hstages
  refine hstages.trans ?_
  have hlast := ResolvedPiece.textOf_last (Piece.evaluate scope ps).1
  rw [show 0 + Form.pipeline.length = Form.reference.place + 1 from rfl, hlast, List.nil_append]

/-! ## What a run leaves behind -/

/-- The texts that the expressions of a form came to. -/
def Expansion.resolved (form : Form) (es : List Expansion) : List (List Char) :=
  (ofForm form es).filterMap fun e => e.resolution.toOption

/-- The name and the value that an expression stores. -/
def Expansion.stored? (e : Expansion) : Option (List Char × List Char) :=
  if e.form = .set ∧ e.resolution.isOk then Text.splitPair ',' e.body else none

namespace Replays

variable {scope later : Scope} {es : List Expansion}

theorem numbers (h : Replays scope es later) :
    Expansion.resolved .sequence es = scope.sequence.following
      (Expansion.resolved .sequence es).length ∧
      later.sequence =
        ⟨scope.sequence.last + UInt64.ofNat (Expansion.resolved .sequence es).length⟩ := by
  induction h with
  | done scope => simp [Expansion.resolved, Expansion.ofForm, Sequence.following]
  | @step scope next later e es head tail ih =>
    obtain ⟨hnumbers, hlast⟩ := ih
    by_cases he : e.form = .sequence
    · rw [he, Scope.resolve_sequence] at head
      by_cases hblank : Text.allBlank e.body
      · rw [if_pos hblank] at head
        obtain ⟨hr, hnext⟩ := Prod.mk.inj head
        have hresolved : Expansion.resolved .sequence (e :: es) =
            Text.decimal (scope.sequence.last + 1).toNat :: Expansion.resolved .sequence es := by
          simp [Expansion.resolved, Expansion.ofForm, he, ← hr, Except.toOption]
        rw [← hnext] at hnumbers hlast
        rw [hresolved, List.length_cons, Sequence.following_succ, ← hnumbers]
        refine ⟨rfl, ?_⟩
        rw [hlast, UInt64.ofNat_add, UInt64.add_assoc, UInt64.add_comm (UInt64.ofNat _)]
        rfl
      · rw [if_neg hblank] at head
        obtain ⟨hr, rfl⟩ := Prod.mk.inj head
        have hresolved :
            Expansion.resolved .sequence (e :: es) = Expansion.resolved .sequence es := by
          simp [Expansion.resolved, Expansion.ofForm, he, ← hr, Except.toOption]
        rw [hresolved]
        exact ⟨hnumbers, hlast⟩
    · have hnext : next.sequence = scope.sequence := by
        have hframe := (scope.resolve_frame e.form e.body).1 he
        rwa [head] at hframe
      have hresolved :
          Expansion.resolved .sequence (e :: es) = Expansion.resolved .sequence es := by
        simp [Expansion.resolved, Expansion.ofForm, he]
      rw [hresolved, ← hnext]
      exact ⟨hnumbers, hlast⟩

theorem bindings (h : Replays scope es later) :
    later.bindings = (es.filterMap Expansion.stored?).foldl
      (fun v stored => v.set stored.1 stored.2) scope.bindings := by
  induction h with
  | done scope => rfl
  | @step scope next later e es head tail ih =>
    rw [ih]
    by_cases he : e.form = .set
    · rw [he, Scope.resolve_set] at head
      cases hpair : Text.splitPair ',' e.body with
      | none =>
        have hstored : e.stored? = none := by simp [Expansion.stored?, hpair]
        rw [hpair] at head
        obtain ⟨-, rfl⟩ := Prod.mk.inj head
        rw [List.filterMap_cons_none hstored]
      | some pair =>
        rw [hpair] at head
        obtain ⟨hr, rfl⟩ := Prod.mk.inj head
        have hstored : e.stored? = some pair := by
          rw [Expansion.stored?, if_pos ⟨he, hr ▸ rfl⟩, hpair]
        rw [List.filterMap_cons_some hstored]
        rfl
    · have hstored : e.stored? = none := if_neg fun h => he h.1
      have hnext : next.bindings = scope.bindings := by
        have hframe := (scope.resolve_frame e.form e.body).2.2.1 he
        rwa [head] at hframe
      rw [List.filterMap_cons_none hstored, hnext]

theorem files (h : Replays scope es later) : later.files = scope.files := by
  induction h with
  | done scope => rfl
  | @step scope next later e es head tail ih =>
    have hframe := (scope.resolve_frame e.form e.body).2.2.2
    rw [head] at hframe
    exact ih.trans hframe

end Replays

/-- What the expressions of a template do to a scope. -/
structure Effects (scope : Scope) (es : List Expansion) (later : Scope) : Prop where
  /-- The numbers are handed out from left to right. -/
  numbers : Expansion.resolved .sequence es = scope.sequence.following
    (Expansion.resolved .sequence es).length
  counter : later.sequence.last = scope.sequence.last + UInt64.ofNat
    (Expansion.resolved .sequence es).length
  /-- The values are stored from left to right. -/
  bindings : later.bindings = (es.filterMap Expansion.stored?).foldl
    (fun v stored => v.set stored.1 stored.2) scope.bindings
  /-- References find what is stored in the end. -/
  references : ∀ e ∈ es, e.form = .reference →
    e.resolution = (later.bindings.get? e.body).elim (.error (.unsetVariable e.body)) .ok
  unchanged : ∀ name, name ∉ (es.filterMap Expansion.stored?).map Prod.fst →
    later.bindings.get? name = scope.bindings.get? name
  files : later.files = scope.files

theorem Replays.effects {scope later : Scope} {es : List Expansion} (h : Replays scope es later) :
    Effects scope (es.map (Expansion.settle later)) later := by
  have hresolved : Expansion.resolved .sequence (es.map (Expansion.settle later)) =
      Expansion.resolved .sequence es := by
    rw [Expansion.resolved, Expansion.ofForm_map_settle, Expansion.map_settle_of_ne,
      Expansion.resolved]
    intro e he
    rw [Expansion.form_of_mem_ofForm he]
    decide
  have hstored : (es.map (Expansion.settle later)).filterMap Expansion.stored? =
      es.filterMap Expansion.stored? := by
    rw [List.filterMap_map]
    refine List.filterMap_congr fun e _ => ?_
    by_cases he : e.form = .reference
    · simp [Expansion.settle, Expansion.stored?, he]
    · simp [Expansion.settle, he]
  obtain ⟨hnumbers, hlast⟩ := h.numbers
  refine ⟨by rwa [hresolved], by rw [hlast, hresolved], by rw [hstored, h.bindings],
    ?_, ?_, h.files⟩
  · intro e he hform
    obtain ⟨e, -, rfl⟩ := List.mem_map.mp he
    have hreference : e.form = .reference := by
      by_contra hne
      rw [Expansion.settle, if_neg hne] at hform
      exact hne hform
    rw [Expansion.settle, if_pos hreference]
    simp only [Scope.resolve]
    cases later.bindings.get? e.body <;> rfl
  · intro name hname
    rw [hstored] at hname
    rw [h.bindings, Variables.get?_foldl_set _ hname]

/-- An evaluation is call-by-value. Where the interpreter's tree is well nested, the text is what
the tree stands for, each error of an expression is reported once, form by form and from left to
right, and the scope is left as the interpreter leaves it. -/
theorem evaluate_of_wellNested (scope : Scope) (ps : List Piece)
    (h : ResolvedPiece.WellNested (Piece.evaluate scope ps).1) :
    let (tree, later) := Piece.evaluate scope ps
    let es := ResolvedPiece.expansionsOf tree
    scope.evaluate (Piece.sourceOf ps) =
        ({ value := ResolvedPiece.valueOf tree, diagnostics := Expansion.errors Form.pipeline es },
          later) ∧
      Effects scope es later := by
  refine ⟨run_pipeline h, ?_⟩
  have heffects := (Piece.replays_interpretAll scope ps).effects
  rwa [← ResolvedPiece.expansionsOf_map_settle h] at heffects

/-- `Key_$set(x,$pad(2,$seq()))=${x}${y}`, three deep and with a name that was never stored. -/
def keyTemplate : List Piece :=
  [.literal "Key_".toList,
    .expression .set [.literal "x,".toList,
      .expression .pad [.literal "2,".toList, .expression .sequence []]],
    .literal "=".toList, .expression .reference [.literal "x".toList],
      .expression .reference [.literal "y".toList]]

theorem evaluate_of_wellNested_key :
    ResolvedPiece.WellNested (Piece.evaluate {} keyTemplate).1 ∧
      (({} : Scope).evaluate (Piece.sourceOf keyTemplate)).1 =
        { value := "Key_11=11$\x7by\x7d".toList, diagnostics := [.unsetVariable "y".toList] } ∧
      Effects {} (ResolvedPiece.expansionsOf (Piece.evaluate {} keyTemplate).1)
        (Piece.evaluate {} keyTemplate).2 := by
  have hnested : ResolvedPiece.WellNested (Piece.evaluate {} keyTemplate).1 := by decide +kernel
  obtain ⟨hvalue, heffects⟩ := evaluate_of_wellNested {} keyTemplate hnested
  refine ⟨hnested, ?_, heffects⟩
  rw [hvalue]
  decide +kernel

end LedgerBench
