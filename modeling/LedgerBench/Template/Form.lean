import LedgerBench.Text.Numeral
/-!
The expression forms of a template and what can go wrong with one.

| Form | Result |
|---|---|
| `$seq()` | the next number of the sequence; the body must be blank |
| `$rand(n)` | a random number in `[0, n)` |
| `$pad(n,chars)` | `chars` repeated `n` times, at most 2^20 bytes |
| `$file(path)` | the text of a file |
| `$set(name,value)` | stores `value` under `name` and yields it |
| `${name}` | the value stored under `name` |
-/

namespace LedgerBench

inductive Form where
  | sequence
  | random
  | pad
  | file
  | set
  | reference
  deriving DecidableEq, Repr, Inhabited

namespace Form

/-- The order in which the forms are expanded. -/
def pipeline : List Form := [sequence, random, pad, file, set, reference]

/-- The text that opens an expression. -/
def opener : Form → List Char
  | sequence => "$seq(".toList
  | random => "$rand(".toList
  | pad => "$pad(".toList
  | file => "$file(".toList
  | set => "$set(".toList
  | reference => "$\x7b".toList

/-- The character that closes an expression. -/
def closer : Form → Char
  | reference => '\x7d'
  | _ => ')'

def text (f : Form) : String := String.ofList (f.opener ++ ['.', '.', f.closer])

/-- How a body of the form has to look, for the forms that fix it. -/
def usage : Form → String
  | sequence => "$seq()"
  | pad => "$pad(n,chars)"
  | set => "$set(var,value)"
  | f => f.text

end Form

/-- Why an expression was left as it stands. -/
inductive ExpressionError where
  /-- The text from the opener on holds no closer. -/
  | unterminated (form : Form) (expression : List Char)
  | invalidNumber (form : Form) (value : List Char)
  /-- The body has not the form's shape. -/
  | malformed (form : Form) (body : List Char)
  | unreadableFile (path : List Char) (reason : String)
  /-- Nothing is stored under the name. -/
  | unsetVariable (name : List Char)
  deriving DecidableEq, Repr

def ExpressionError.message : ExpressionError → String
  | .unterminated form expression =>
    "expecting '" ++ String.ofList [form.closer] ++ "' in expression '" ++
      String.ofList expression ++ "'"
  | .invalidNumber form value =>
    "invalid number '" ++ String.ofList value ++ "' in " ++ form.text ++ " expression"
  | .malformed form body =>
    "invalid " ++ form.text ++ " expression '" ++ String.ofList body ++
      "', expecting " ++ form.usage
  | .unreadableFile path reason =>
    "cannot read file [" ++ String.ofList path ++ "]: " ++ reason
  | .unsetVariable name => "variable [" ++ String.ofList name ++ "] not set"

/-- What became of an expression: the text it stands for, or why it has none. -/
abbrev Resolution := Except ExpressionError (List Char)

instance Resolution.decEq : DecidableEq Resolution
  | .ok a, .ok b => decidable_of_iff (a = b) ⟨congrArg Except.ok, Except.ok.inj⟩
  | .error d, .error e => decidable_of_iff (d = e) ⟨congrArg Except.error, Except.error.inj⟩
  | .ok _, .error _ => isFalse nofun
  | .error _, .ok _ => isFalse nofun

end LedgerBench
