import LedgerBench.Template.Expand
import LedgerBench.Text.Blank
import LedgerBench.Files
import LedgerBench.Keyed
/-!
What expressions read and change.

A `Scope` holds the sequence counter, the variables, the files in reach and a stream of random
draws. `Scope.resolve` resolves one expression in one step: it is the only place where templates
touch shared state, so tasks that run side by side interleave at expressions.
-/

namespace LedgerBench

/-- The numbers handed out by `$seq()`: the last one, zero before the first. It wraps at 64 bits. -/
structure Sequence where
  last : UInt64 := 0
  deriving DecidableEq, Repr

def Sequence.next (s : Sequence) : UInt64 × Sequence := (s.last + 1, ⟨s.last + 1⟩)

/-- Values stored under names, the most recently added name first. A name is listed once. -/
structure Variables where
  entries : List (List Char × List Char) := []
  deriving DecidableEq, Repr

namespace Variables

def get? (v : Variables) (name : List Char) : Option (List Char) := v.entries.lookup name

def set (v : Variables) (name value : List Char) : Variables :=
  ⟨(name, value) :: v.entries.filter fun entry => entry.1 != name⟩

def size (v : Variables) : Nat := v.entries.length

theorem get?_set (v : Variables) (name value other : List Char) :
    (v.set name value).get? other = if other = name then some value else v.get? other := by
  simp only [get?, set, lookup_put, beq_iff_eq]

end Variables

/-- A stream of random numbers and how many have been drawn from it. -/
structure Draws where
  stream : Nat → Nat
  used : Nat := 0

def Draws.next (d : Draws) : Nat × Draws := (d.stream d.used, { d with used := d.used + 1 })

/-- What a path can be read as. -/
abbrev FileReader := String → Except ReadError (List Char)

/-- The reader for which one path reads as given. -/
def FileReader.withFile (files : FileReader) (path : String)
    (content : Except ReadError (List Char)) : FileReader :=
  fun other => if other = path then content else files other

/-- What expressions read and change. -/
structure Scope where
  sequence : Sequence := {}
  bindings : Variables := {}
  files : FileReader := fun _ => .error .notFound
  draws : Draws := { stream := fun _ => 0 }

/-- The bound of the numbers in a pad's count: 64 bits. -/
def Form.countBound : Nat := 2 ^ 64

/-- The bound of the number in a random expression: 63 bits. -/
def Form.randomBound : Nat := 2 ^ 63

/-- The most bytes that one pad may produce. -/
def maxPadBytes : Nat := 2 ^ 20

/-- How many bytes a text has in UTF-8. -/
def utf8Length (s : List Char) : Nat := s.foldl (fun n c => n + c.utf8Size) 0

def repeatText (n : Nat) (s : List Char) : List Char := (List.replicate n s).flatten

/-- The count of a pad, if the text is a numeral and that many copies of `chars` are not too
long. -/
def padCount? (count chars : List Char) : Option Nat :=
  (Text.readUnsigned? Form.countBound (Text.trim count)).filter
    fun n => n * utf8Length chars ≤ maxPadBytes

/-- What a pad stands for. Nothing repeated any number of times is nothing. -/
def resolvePad (body : List Char) : Resolution :=
  match Text.splitPair ',' body with
  | none => .error (.malformed .pad body)
  | some (count, chars) =>
    match padCount? count chars with
    | none => .error (.invalidNumber .pad count)
    | some n => .ok (if chars = [] then [] else repeatText n chars)

/-- The bound of a random expression, if its body is a positive number. -/
def randomLimit? (body : List Char) : Option Nat :=
  match Text.readSigned? Form.randomBound (Text.trim body) with
  | some n => if 0 < n then some n.toNat else none
  | none => none

namespace Scope

/-- Resolves one expression. -/
def resolve (scope : Scope) (form : Form) (body : List Char) : Resolution × Scope :=
  match form with
  | .sequence =>
    if Text.allBlank body then
      let (number, sequence) := scope.sequence.next
      (.ok (Text.decimal number.toNat), { scope with sequence })
    else (.error (.malformed .sequence body), scope)
  | .random =>
    match randomLimit? body with
    | some limit =>
      let (number, draws) := scope.draws.next
      (.ok (Text.decimal (number % limit)), { scope with draws })
    | none => (.error (.invalidNumber .random body), scope)
  | .pad => (resolvePad body, scope)
  | .file =>
    match scope.files (String.ofList body) with
    | .ok text => (.ok text, scope)
    | .error e => (.error (.unreadableFile body e.message), scope)
  | .set =>
    match Text.splitPair ',' body with
    | some (name, value) => (.ok value, { scope with bindings := scope.bindings.set name value })
    | none => (.error (.malformed .set body), scope)
  | .reference =>
    match scope.bindings.get? body with
    | some value => (.ok value, scope)
    | none => (.error (.unsetVariable body), scope)

/-- Resolution as a step that changes the scope. -/
def resolveM (form : Form) (body : List Char) : StateM Scope Resolution :=
  fun scope => scope.resolve form body

def evaluate (scope : Scope) (template : List Char) : Evaluation × Scope :=
  (LedgerBench.evaluate resolveM template).run scope

def expandArgs (scope : Scope) (args : List String) : List String × Scope :=
  (LedgerBench.expandArgs resolveM args).run scope

end Scope

end LedgerBench
