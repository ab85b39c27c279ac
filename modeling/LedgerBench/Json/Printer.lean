import LedgerBench.Json.Value
/-!
Writing JSON text.

`compact` writes a value without white space. In a string only what must be escaped is: the quote,
the backslash and the control characters, these with their one-letter escape where there is one.
`pretty` puts every element and member on a line of its own, two blanks deeper than the container.
-/

namespace LedgerBench

namespace Json

def escapeChar (c : Char) : List Char :=
  match c with
  | '"' => ['\\', '"']
  | '\\' => ['\\', '\\']
  | '\x08' => ['\\', 'b']
  | '\x0c' => ['\\', 'f']
  | '\n' => ['\\', 'n']
  | '\r' => ['\\', 'r']
  | '\t' => ['\\', 't']
  | _ =>
    if c.toNat < 0x20 then
      ['\\', 'u', '0', '0', Nat.digitChar (c.toNat / 16), Nat.digitChar (c.toNat % 16)]
    else [c]

def quote (s : List Char) : List Char := '"' :: s.flatMap escapeChar ++ ['"']

/-- A string value as a literal. One that denotes no text is written as an unpaired surrogate. -/
def stringLiteral : Option String → List Char
  | some s => quote s.toList
  | none => "\"\\ud800\"".toList

def Number.literal (n : Number) : List Char :=
  (if n.negative then ['-'] else []) ++ n.whole
    ++ (if n.fraction = [] then [] else '.' :: n.fraction)
    ++ (match n.exponent with
      | none => []
      | some (negative, digits) => 'e' :: (if negative then ['-'] else []) ++ digits)

def commaSeparated : List (List Char) → List Char
  | [] => []
  | [s] => s
  | s :: rest => s ++ ',' :: commaSeparated rest

mutual

def compactChars : Json → List Char
  | .null => ['n', 'u', 'l', 'l']
  | .bool true => ['t', 'r', 'u', 'e']
  | .bool false => ['f', 'a', 'l', 's', 'e']
  | .number n => n.literal
  | .string s => stringLiteral s
  | .array elements => '[' :: commaSeparated (compactElements elements) ++ [']']
  | .object members => '{' :: commaSeparated (compactMembers members) ++ ['}']

def compactElements : List Json → List (List Char)
  | [] => []
  | v :: rest => compactChars v :: compactElements rest

def compactMembers : List (Option String × Json) → List (List Char)
  | [] => []
  | (name, v) :: rest => (stringLiteral name ++ ':' :: compactChars v) :: compactMembers rest

end

def compact (v : Json) : String := String.ofList (compactChars v)

/-- Indented lines between an opening and a closing bracket. -/
def bracketed (depth : Nat) (opening closing : Char) (items : List (List Char)) : List Char :=
  let indent := fun n => '\n' :: List.replicate (2 * n) ' '
  if items = [] then [opening, closing]
  else
    opening :: indent (depth + 1) ++ (items.intersperse (',' :: indent (depth + 1))).flatten
      ++ indent depth ++ [closing]

mutual

/-- The characters of a value whose container is `depth` levels deep. -/
def prettyChars (depth : Nat) : Json → List Char
  | .array elements => bracketed depth '[' ']' (prettyElements (depth + 1) elements)
  | .object members => bracketed depth '{' '}' (prettyMembers (depth + 1) members)
  | .null => compactChars .null
  | .bool b => compactChars (.bool b)
  | .number n => n.literal
  | .string s => stringLiteral s

def prettyElements (depth : Nat) : List Json → List (List Char)
  | [] => []
  | v :: rest => prettyChars depth v :: prettyElements depth rest

def prettyMembers (depth : Nat) : List (Option String × Json) → List (List Char)
  | [] => []
  | (name, v) :: rest =>
    (stringLiteral name ++ ':' :: ' ' :: prettyChars depth v) :: prettyMembers depth rest

end

/-- The text of a value on indented lines. -/
def pretty (v : Json) : String := String.ofList (prettyChars 0 v)

end Json

end LedgerBench
