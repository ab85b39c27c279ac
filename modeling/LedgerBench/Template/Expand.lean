import LedgerBench.Template.Form
import LedgerBench.Text.Cut
/-!
One pass over a template: the expressions of one form.

`Scan.of form s` takes a text apart into literal, body, literal, body, …, tail: each body lies
between the leftmost opener of what remains and the first closer after it. The decomposition does
not depend on what the bodies resolve to, because inserted text is never looked at again, so
`expand` scans once, resolves the bodies from left to right, and puts the pieces together: a
resolved expression is replaced, any other stays as it is written.
-/

namespace LedgerBench

structure Hit where
  before : List Char
  body : List Char
  deriving DecidableEq, Repr

/-- A text taken apart for one form. `dangling` is the part of the tail from an opener that no
closer follows. -/
structure Scan where
  hits : List Hit
  tail : List Char
  dangling : Option (List Char)
  deriving DecidableEq, Repr

/-- A scan in progress, with the expressions already found held in reverse. -/
def Scan.extend (form : Form) (found : List Hit) (s : List Char) : Scan :=
  match _opened : Text.cut form.opener s with
  | none => { hits := found.reverse, tail := s, dangling := none }
  | some (before, inner) =>
    match _closed : Text.cut [form.closer] inner with
    | none => { hits := found.reverse, tail := s, dangling := some (form.opener ++ inner) }
    | some (body, rest) => Scan.extend form ({ before, body } :: found) rest
termination_by s.length
decreasing_by
  have outer := Text.length_of_cut _opened
  have inner := Text.length_of_cut _closed
  simp only [List.length_cons, List.length_nil] at inner
  omega

def Scan.of (form : Form) (s : List Char) : Scan := Scan.extend form [] s

/-- An expression as it is written. -/
def Form.written (form : Form) (body : List Char) : List Char :=
  form.opener ++ body ++ [form.closer]

/-- What stands in the output for an expression: what it resolved to, or itself. -/
def Form.shown (form : Form) (body : List Char) : Resolution → List Char
  | .ok text => text
  | .error _ => form.written body

def Resolution.error? : Resolution → Option ExpressionError
  | .ok _ => none
  | .error e => some e

/-- A text with the causes for which some of its expressions still stand in it. -/
structure Evaluation where
  value : List Char
  diagnostics : List ExpressionError
  deriving DecidableEq, Repr

/-- The pieces of a scan put together again, with what each expression resolved to. -/
def Scan.assemble (form : Form) (scan : Scan) (resolutions : List Resolution) : Evaluation where
  value :=
    (List.zipWith (fun (hit : Hit) r => hit.before ++ form.shown hit.body r) scan.hits
      resolutions).flatten
      ++ scan.tail
  diagnostics :=
    resolutions.filterMap Resolution.error?
      ++ (scan.dangling.map (ExpressionError.unterminated form)).toList

/-- Expands the expressions of one form, resolving their bodies from left to right. -/
def expand {m : Type → Type} [Monad m] (form : Form) (resolve : List Char → m Resolution)
    (s : List Char) :
    m Evaluation := do
  let scan := Scan.of form s
  let resolutions ← scan.hits.mapM fun hit => resolve hit.body
  pure (scan.assemble form resolutions)

/-- One stage of the pipeline: expands a form in the value so far and adds the stage's
diagnostics. -/
def Evaluation.stage {m : Type → Type} [Monad m] (resolve : Form → List Char → m Resolution)
    (ev : Evaluation) (form : Form) : m Evaluation := do
  let next ← expand form (resolve form) ev.value
  pure { value := next.value, diagnostics := ev.diagnostics ++ next.diagnostics }

/-- Expands a template: every form in the order of the pipeline, a later form seeing what the
earlier ones left. -/
def evaluate {m : Type → Type} [Monad m] (resolve : Form → List Char → m Resolution)
    (template : List Char) : m Evaluation :=
  Form.pipeline.foldlM (Evaluation.stage resolve) { value := template, diagnostics := [] }

/-- Expands the arguments of a call in order and keeps their values. -/
def expandArgs {m : Type → Type} [Monad m] (resolve : Form → List Char → m Resolution)
    (args : List String) : m (List String) :=
  args.mapM fun arg => do
    let ev ← evaluate resolve arg.toList
    pure (String.ofList ev.value)

end LedgerBench
