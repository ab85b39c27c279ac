import LedgerBench.Json.Token
/-!
Reading a JSON value from its tokens.

The reader keeps the containers it stands inside in a list, innermost first, so a text of any
nesting depth is read in one pass over its tokens. `read?` accepts exactly one value with nothing
after it.
-/

namespace LedgerBench

namespace Json

/-- A container under way, with what it holds so far in reverse. An object also holds the name whose
value comes next. -/
inductive Frame where
  | array (elements : List Json)
  | object (members : List (Option String × Json)) (name : Option String)

inductive Expect where
  | value
  /-- A value, or the end of the array that was just opened. -/
  | element
  /-- A name, or the end of the object that was just opened: its members so far are none. -/
  | member
  | name (members : List (Option String × Json))
  | colon (members : List (Option String × Json)) (name : Option String)
  /-- What follows a finished value: a comma, the end of the container, or the end of the text. -/
  | next (value : Json)

/-- The reader: the containers it stands inside and what may come next. -/
structure Reader where
  frames : List Frame
  expect : Expect

/-- Begins a value with the token. -/
def Reader.beginValue (frames : List Frame) : Token → Option Reader
  | .openObject => some { frames, expect := .member }
  | .openArray => some { frames := .array [] :: frames, expect := .element }
  | .null => some { frames, expect := .next .null }
  | .bool b => some { frames, expect := .next (.bool b) }
  | .number n => some { frames, expect := .next (.number n) }
  | .string s => some { frames, expect := .next (.string s) }
  | _ => none

def Reader.step (r : Reader) (t : Token) : Option Reader :=
  match r.expect, t with
  | .value, t => Reader.beginValue r.frames t
  | .element, .closeArray =>
    match r.frames with
    | .array elements :: frames => some { frames, expect := .next (.array elements.reverse) }
    | _ => none
  | .element, t => Reader.beginValue r.frames t
  | .member, .closeObject => some { r with expect := .next (.object []) }
  | .member, .string name => some { r with expect := .colon [] name }
  | .name members, .string name => some { r with expect := .colon members name }
  | .colon members name, .colon =>
    some { frames := .object members name :: r.frames, expect := .value }
  | .next value, .comma =>
    match r.frames with
    | .array elements :: frames =>
      some { frames := .array (value :: elements) :: frames, expect := .value }
    | .object members name :: frames =>
      some { frames, expect := .name ((name, value) :: members) }
    | [] => none
  | .next value, .closeArray =>
    match r.frames with
    | .array elements :: frames =>
      some { frames, expect := .next (.array (value :: elements).reverse) }
    | _ => none
  | .next value, .closeObject =>
    match r.frames with
    | .object members name :: frames =>
      some { frames, expect := .next (.object ((name, value) :: members).reverse) }
    | _ => none
  | _, _ => none

def Reader.initial : Reader := { frames := [], expect := .value }

/-- The value, if one is complete and no container is open. -/
def Reader.result? (r : Reader) : Option Json :=
  match r.frames, r.expect with
  | [], .next value => some value
  | _, _ => none

def ofTokens? (tokens : List Token) : Option Json :=
  (tokens.foldlM Reader.step Reader.initial).bind Reader.result?

def read? (s : List Char) : Option Json := (Token.scan s).bind ofTokens?

end Json

end LedgerBench
