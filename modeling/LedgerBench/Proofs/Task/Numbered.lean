import LedgerBench.Proofs.Task.Group
import LedgerBench.Proofs.Template.Scan
import LedgerBench.Proofs.Template.Scope
/-!
Where the numbers of a call stand.

The pass of the numbers comes first, so its expressions are those of the template as it was written;
what the other passes bring into the text they cannot number any more. What is proved:
  1. `path_evaluate_iff`: evaluating a template asks for a number at each of its `$seq()`
     expressions and then evaluates the rest of the pipeline on the numbered text, without asking
     for a number again.
  2. `Numbered`: an argument on its way from the template to the request, by the numerals that stand
     in it. Where the answers are those of a sequence, every expansion of some arguments is one of
     these for each argument (`exists_numbered_args`).
  3. `Invocation.exists_takes`: the numerals that an invocation asks for are those in the arguments
     of its request, however often it is attempted.
-/

namespace LedgerBench

open Program

/-! ## Numbers of a template -/

def Hit.isBlank (hit : Hit) : Bool := Text.allBlank hit.body

/-- How many of a template's expressions are to be numbered: the `$seq()` expressions with nothing
but blanks in their bodies. -/
def blanks (template : List Char) : Nat := (Scan.of .sequence template).hits.countP Hit.isBlank

/-- The answers that put numerals in the places of some `$seq()` expressions. -/
def numbering : List Hit → List (List Char) → List Resolution
  | [], _ => []
  | hit :: hits, numerals =>
    if hit.isBlank then .ok (numerals.headD []) :: numbering hits numerals.tail
    else .error (.malformed .sequence hit.body) :: numbering hits numerals

/-- A template with numerals in the places of its `$seq()` expressions. -/
def withNumerals (template : List Char) (numerals : List (List Char)) : Evaluation :=
  let scan := Scan.of .sequence template
  scan.assemble .sequence (numbering scan.hits numerals)

/-- The exchanges that ask for some expressions of a form. -/
def asking (form : Form) (hits : List Hit) (rs : List Resolution) : List Exchange :=
  List.zipWith (fun (hit : Hit) r => ⟨.resolve form hit.body, r⟩) hits rs

/-- Whether an effect asks for a number, or for what is not a number. -/
def Effect.AsksNumber : Effect → Prop
  | .resolve .sequence _ => True
  | _ => False

namespace Program

theorem path_mapM_resolve_iff {form : Form} {hits : List Hit} {xs : List Exchange}
    {rs : List Resolution} :
    Path (hits.mapM fun hit => Program.resolve form hit.body) xs rs ↔
      rs.length = hits.length ∧ xs = asking form hits rs := by
  induction hits generalizing xs rs with
  | nil =>
    rw [List.mapM_nil, path_pure_iff]
    constructor
    · rintro ⟨rfl, rfl⟩
      exact ⟨rfl, rfl⟩
    · rintro ⟨hlength, rfl⟩
      exact ⟨rfl, List.length_eq_zero_iff.mp hlength⟩
  | cons hit hits ih =>
    rw [List.mapM_cons]
    constructor
    · intro h
      obtain ⟨r, ys, rfl, hrest⟩ := path_perform_bind_iff.mp h
      obtain ⟨zs, ws, rs, rfl, hmap, hdone⟩ := path_bind_iff.mp hrest
      obtain ⟨rfl, rfl⟩ := path_pure_iff.mp hdone
      obtain ⟨hlength, rfl⟩ := ih.mp hmap
      refine ⟨congrArg (· + 1) hlength, ?_⟩
      rw [List.append_nil]
      rfl
    · rintro ⟨hlength, rfl⟩
      cases rs with
      | nil => cases hlength
      | cons r rs =>
        refine path_perform_bind_iff.mpr ⟨r, asking form hits rs, rfl, path_bind_iff.mpr ?_⟩
        exact ⟨asking form hits rs, [], rs, (List.append_nil _).symm,
          ih.mpr ⟨Nat.succ.inj hlength, rfl⟩, path_pure_iff.mpr ⟨rfl, rfl⟩⟩

theorem path_stage_iff {form : Form} {ev later : Evaluation} {xs : List Exchange} :
    Path (Evaluation.stage Program.resolve ev form) xs later ↔
      ∃ rs, rs.length = (Scan.of form ev.value).hits.length ∧
        xs = asking form (Scan.of form ev.value).hits rs ∧
        later = { value := ((Scan.of form ev.value).assemble form rs).value
                  diagnostics :=
                    ev.diagnostics ++ ((Scan.of form ev.value).assemble form rs).diagnostics } := by
  constructor
  · intro h
    obtain ⟨next, hexpand, rfl⟩ := path_bind_pure_iff.mp h
    obtain ⟨rs, hmap, rfl⟩ := path_bind_pure_iff.mp hexpand
    obtain ⟨hlength, rfl⟩ := path_mapM_resolve_iff.mp hmap
    exact ⟨rs, hlength, rfl, rfl⟩
  · rintro ⟨rs, hlength, rfl, rfl⟩
    exact path_bind_pure_iff.mpr ⟨_,
      path_bind_pure_iff.mpr ⟨rs, path_mapM_resolve_iff.mpr ⟨hlength, rfl⟩, rfl⟩, rfl⟩

/-- What the forms after the numbers make of a text. -/
def evaluateNumbered (ev : Evaluation) : Program Evaluation :=
  Form.pipeline.tail.foldlM (Evaluation.stage Program.resolve) ev

theorem path_evaluate_iff {template : List Char} {xs : List Exchange} {ev : Evaluation} :
    Path (evaluate Program.resolve template) xs ev ↔
      ∃ rs ys, rs.length = (Scan.of .sequence template).hits.length ∧
        xs = asking .sequence (Scan.of .sequence template).hits rs ++ ys ∧
        Path (evaluateNumbered ((Scan.of .sequence template).assemble .sequence rs)) ys ev := by
  have hsplit : evaluate Program.resolve template =
      Evaluation.stage Program.resolve { value := template, diagnostics := [] } .sequence >>=
        evaluateNumbered := rfl
  rw [hsplit, path_bind_iff]
  constructor
  · rintro ⟨zs, ys, next, rfl, hfirst, hrest⟩
    obtain ⟨rs, hlength, rfl, rfl⟩ := path_stage_iff.mp hfirst
    exact ⟨rs, ys, hlength, rfl, hrest⟩
  · rintro ⟨rs, ys, hlength, rfl, hrest⟩
    exact ⟨_, ys, _, rfl, path_stage_iff.mpr ⟨rs, hlength, rfl, rfl⟩, hrest⟩

/-- Forms that are not the numbers' ask for no number. -/
theorem only_stages {forms : List Form} (h : .sequence ∉ forms) (ev : Evaluation) :
    Only (fun effect => effect.IsResolve ∧ ¬ effect.AsksNumber)
      (forms.foldlM (Evaluation.stage Program.resolve) ev) := by
  induction forms generalizing ev with
  | nil => exact Only.pure' ev
  | cons form forms ih =>
    rw [List.mem_cons, not_or] at h
    rw [List.foldlM_cons]
    refine Only.bind' (Only.bind' (Only.bind' (Only.mapM' (fun hit => ?_) _) fun rs => Only.pure' _)
      fun next => Only.pure' _) (ih h.2)
    refine Only.perform' ⟨trivial, ?_⟩
    cases form <;> first | exact absurd rfl h.1 | exact id

theorem only_evaluateNumbered (ev : Evaluation) :
    Only (fun effect => effect.IsResolve ∧ ¬ effect.AsksNumber) (evaluateNumbered ev) :=
  only_stages (by decide) ev

end Program

/-! ## Numerals among exchanges -/

namespace Program

/-- The numeral that an exchange got. -/
def Exchange.numeral? : Exchange → Option (List Char)
  | ⟨.resolve .sequence _, answer⟩ => Except.toOption answer
  | _ => none

/-- The numerals that some exchanges got, in order. -/
def numerals (xs : List Exchange) : List (List Char) := xs.filterMap Exchange.numeral?

theorem numerals_append (xs ys : List Exchange) :
    numerals (xs ++ ys) = numerals xs ++ numerals ys :=
  List.filterMap_append

theorem numerals_flatMap {α : Type} (f : α → List Exchange) (l : List α) :
    numerals (l.flatMap f) = l.flatMap fun a => numerals (f a) := List.filterMap_flatMap

theorem numerals_of_not_asksNumber {xs : List Exchange} (h : ∀ x ∈ xs, ¬ x.effect.AsksNumber) :
    numerals xs = [] := by
  rw [numerals, List.filterMap_eq_nil_iff]
  rintro ⟨effect, answer⟩ hx
  have hno := h _ hx
  cases effect with
  | resolve form body => cases form <;> first | rfl | exact (hno trivial).elim
  | now => rfl
  | submit request => rfl
  | query request => rfl
  | sleep delay => rfl
  | emit event => rfl

/-- An exchange whose answer is that of a sequence. -/
def Exchange.Counted : Exchange → Prop
  | ⟨.resolve .sequence body, answer⟩ =>
    if Text.allBlank body then ∃ numeral, answer = Except.ok numeral
      else answer = Except.error (.malformed .sequence body)
  | _ => True

theorem numerals_numbering {hits : List Hit} {ns : List (List Char)}
    (h : ns.length = hits.countP Hit.isBlank) :
    numerals (asking .sequence hits (numbering hits ns)) = ns := by
  induction hits generalizing ns with
  | nil => exact (List.length_eq_zero_iff.mp h).symm
  | cons hit hits ih =>
    by_cases hblank : hit.isBlank
    · rw [List.countP_cons_of_pos hblank] at h
      cases ns with
      | nil => cases h
      | cons numeral ns =>
        rw [numbering, if_pos hblank]
        exact congrArg (numeral :: ·) (ih (Nat.succ.inj h))
    · rw [List.countP_cons_of_neg hblank] at h
      rw [numbering, if_neg hblank]
      exact ih h

/-- The answers of a sequence are the numerals in their places. -/
theorem numbering_of_counted {hits : List Hit} {rs : List Resolution}
    (hlength : rs.length = hits.length) (h : ∀ x ∈ asking .sequence hits rs, x.Counted) :
    (numerals (asking .sequence hits rs)).length = hits.countP Hit.isBlank ∧
      rs = numbering hits (numerals (asking .sequence hits rs)) := by
  induction hits generalizing rs with
  | nil =>
    obtain rfl := List.length_eq_zero_iff.mp hlength
    exact ⟨rfl, rfl⟩
  | cons hit hits ih =>
    cases rs with
    | nil => cases hlength
    | cons r rs =>
      obtain ⟨hcount, hrs⟩ := ih (Nat.succ.inj hlength) fun x hx => h x (List.mem_cons_of_mem _ hx)
      have hr : if hit.isBlank then ∃ numeral, r = .ok numeral
          else r = .error (.malformed .sequence hit.body) :=
        h ⟨.resolve .sequence hit.body, r⟩ List.mem_cons_self
      by_cases hblank : hit.isBlank
      · rw [if_pos hblank] at hr
        obtain ⟨numeral, rfl⟩ := hr
        have hcons : numerals (asking .sequence (hit :: hits) (.ok numeral :: rs)) =
            numeral :: numerals (asking .sequence hits rs) := rfl
        rw [hcons, List.length_cons, hcount, List.countP_cons_of_pos hblank, numbering,
          if_pos hblank]
        exact ⟨rfl, congrArg (.ok numeral :: ·) hrs⟩
      · rw [if_neg hblank] at hr
        subst hr
        have hcons : numerals (asking .sequence (hit :: hits)
            (.error (.malformed .sequence hit.body) :: rs)) =
            numerals (asking .sequence hits rs) := rfl
        rw [hcons, hcount, List.countP_cons_of_neg hblank, numbering, if_neg hblank]
        exact ⟨rfl, congrArg (.error (.malformed .sequence hit.body) :: ·) hrs⟩

end Program

/-! ## Numbered arguments -/

/-- An argument on its way from the template to the request. -/
structure Numbered where
  template : String
  /-- What stands in the places of the template's `$seq()` expressions. -/
  numerals : List (List Char)
  fits : numerals.length = blanks template.toList
  /-- What the other forms exchange. -/
  others : List Exchange
  expanded : Evaluation
  path : Path (evaluateNumbered (withNumerals template.toList numerals)) others expanded

namespace Numbered

def value (a : Numbered) : String := String.ofList a.expanded.value

def exchanges (a : Numbered) : List Exchange :=
  let hits := (Scan.of .sequence a.template.toList).hits
  asking .sequence hits (numbering hits a.numerals) ++ a.others

/-- Only the template's own expressions got a numeral. -/
theorem numerals_exchanges (a : Numbered) : Program.numerals a.exchanges = a.numerals := by
  have hothers := numerals_of_not_asksNumber fun x hx => (only_evaluateNumbered _ _ _ a.path x hx).2
  rw [exchanges, numerals_append, numerals_numbering a.fits, hothers, List.append_nil]

end Numbered

theorem exists_numbered {template : String} {xs : List Exchange} {ev : Evaluation}
    (h : Path (evaluate Program.resolve template.toList) xs ev) (hx : ∀ x ∈ xs, x.Counted) :
    ∃ a : Numbered, a.template = template ∧ a.exchanges = xs ∧ a.expanded = ev := by
  obtain ⟨rs, ys, hlength, rfl, hpath⟩ := path_evaluate_iff.mp h
  obtain ⟨hcount, hrs⟩ :=
    numbering_of_counted hlength fun x hx' => hx x (List.mem_append_left _ hx')
  rw [hrs] at hpath
  refine ⟨⟨template, _, hcount, ys, ev, hpath⟩, rfl, ?_, rfl⟩
  exact congrArg (fun rs => asking .sequence (Scan.of .sequence template.toList).hits rs ++ ys)
    hrs.symm

theorem exists_numbered_args {args values : List String} {xs : List Exchange}
    (h : Path (expandArgs Program.resolve args) xs values) (hx : ∀ x ∈ xs, x.Counted) :
    ∃ as : List Numbered, args = as.map Numbered.template ∧ xs = as.flatMap Numbered.exchanges ∧
      values = as.map Numbered.value := by
  unfold expandArgs at h
  induction args generalizing xs values with
  | nil =>
    rw [List.mapM_nil] at h
    obtain ⟨rfl, rfl⟩ := path_pure_iff.mp h
    exact ⟨[], rfl, rfl, rfl⟩
  | cons arg args ih =>
    rw [List.mapM_cons] at h
    obtain ⟨ys, zs, value, rfl, hfirst, hrest⟩ := path_bind_iff.mp h
    obtain ⟨ev, hevaluate, rfl⟩ := path_bind_pure_iff.mp hfirst
    obtain ⟨values, hmap, rfl⟩ := path_bind_pure_iff.mp hrest
    obtain ⟨a, rfl, rfl, rfl⟩ :=
      exists_numbered hevaluate fun x hx' => hx x (List.mem_append_left _ hx')
    obtain ⟨as, rfl, rfl, rfl⟩ := ih hmap fun x hx' => hx x (List.mem_append_right _ hx')
    exact ⟨a :: as, rfl, rfl, rfl⟩

/-! ## Numbers of an invocation -/

namespace Invocation

variable {binding : Binding} {i : Invocation binding} {as : List Numbered}

/-- An invocation expands some arguments and sends what they came to. -/
structure Takes (i : Invocation binding) (as : List Numbered) : Prop where
  args : i.call.spec.args = as.map Numbered.template
  expansion : i.expansion = as.flatMap Numbered.exchanges
  sent : i.args = as.map Numbered.value

theorem exists_takes (i : Invocation binding) (h : ∀ x ∈ i.expansion, x.Counted) :
    ∃ as, i.Takes as := by
  obtain ⟨as, hargs, hexpansion, hsent⟩ := exists_numbered_args i.expanded h
  exact ⟨as, hargs, hexpansion, hsent⟩

/-- The attempts ask for no number. -/
theorem Takes.numerals_exchanges (h : i.Takes as) :
    Program.numerals i.exchanges = as.flatMap Numbered.numerals := by
  have htries : Program.numerals i.attempting = [] := by
    refine numerals_of_not_asksNumber ?_
    rintro ⟨effect, answer⟩ hx hasks
    have htry := (CallTask.tries_of_attempt i.attempted).1 _ hx
    cases effect <;> first | exact hasks | exact htry
  have hexpansion : Program.numerals i.expansion = as.flatMap Numbered.numerals := by
    rw [h.expansion, numerals_flatMap]
    exact List.flatMap_congr fun a _ => a.numerals_exchanges
  calc Program.numerals i.exchanges
      = Program.numerals (i.expansion ++ i.attempting) ++ [] := by
        rw [exchanges, numerals_append]
        rfl
    _ = as.flatMap Numbered.numerals := by
        rw [List.append_nil, numerals_append, htries, List.append_nil, hexpansion]

theorem Takes.length_numerals (h : i.Takes as) :
    (as.flatMap Numbered.numerals).length =
      (i.call.spec.args.map fun arg => blanks arg.toList).sum := by
  rw [List.length_flatMap, h.args, List.map_map]
  exact congrArg List.sum (List.map_congr_left fun a _ => a.fits)

end Invocation

/-! ## Numbers of a group -/

namespace Task

variable {binding : Binding}

/-- The invocations of a group take their arguments with the numerals that the group got, in the
order of the calls. -/
theorem exists_takes {is : List (Invocation binding)} {id : TaskId} {xs : List Exchange}
    (h : xs = is.flatMap Invocation.exchanges ++ [groupReport id is]) (hx : ∀ x ∈ xs, x.Counted) :
    ∃ ass : List (List Numbered), List.Forall₂ Invocation.Takes is ass ∧
      Program.numerals xs = ass.flatten.flatMap Numbered.numerals := by
  have hreport : Program.numerals [groupReport id is] = [] := rfl
  have hcalls : ∀ x ∈ is.flatMap Invocation.exchanges, x.Counted :=
    fun x hmem => hx x (by rw [h]; exact List.mem_append_left _ hmem)
  rw [h, numerals_append, hreport, List.append_nil]
  clear h hx hreport
  induction is with
  | nil => exact ⟨[], .nil, rfl⟩
  | cons i is ih =>
    rw [List.flatMap_cons] at hcalls
    have hexpansion : ∀ x ∈ i.expansion, x.Counted := by
      intro x hx
      refine hcalls x (List.mem_append_left _ (List.mem_append_left _ ?_))
      exact List.mem_cons_of_mem _ (List.mem_cons_of_mem _ (List.mem_append_left _ hx))
    obtain ⟨as, has⟩ := i.exists_takes hexpansion
    obtain ⟨ass, hass, hnumerals⟩ := ih fun x hx => hcalls x (List.mem_append_right _ hx)
    refine ⟨as :: ass, .cons has hass, ?_⟩
    rw [List.flatMap_cons, numerals_append, has.numerals_exchanges, hnumerals, List.flatten_cons,
      List.flatMap_append]

end Task

end LedgerBench
