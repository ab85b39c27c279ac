import LedgerBench.Json.Value
/-!
Tokens of JSON text.

`Token.scan` reads a text character by character with a small machine: a `Mode` says whether it
stands between tokens, in a string, in a number or in a word. It refuses what the grammar refuses: a
raw control character in a string, an unknown escape, a number with a leading zero or a bare point,
any white space but space, tab, line feed and carriage return.
-/

namespace LedgerBench

namespace Json

/-- A token. A string carries its text, or none where a surrogate escape stands unpaired. -/
inductive Token where
  | openObject
  | closeObject
  | openArray
  | closeArray
  | colon
  | comma
  | null
  | bool (value : Bool)
  | number (literal : Number)
  | string (text : Option String)

/-- One item of a string literal: a character, or a code unit that is half of a surrogate pair. -/
inductive StringItem where
  | char (c : Char)
  | surrogate (unit : Nat)
  deriving DecidableEq, Repr

/-- Whether a code unit is the first half of a surrogate pair. -/
def isHighSurrogate (unit : Nat) : Bool := 0xD800 ≤ unit && unit < 0xDC00

/-- Whether a code unit is the second half of a surrogate pair. -/
def isLowSurrogate (unit : Nat) : Bool := 0xDC00 ≤ unit && unit < 0xE000

/-- The character that a surrogate pair stands for. -/
def pairedChar (high low : Nat) : Char :=
  Char.ofNat (0x10000 + (high - 0xD800) * 0x400 + (low - 0xDC00))

/-- Puts the items of a string, given in reverse, in front of `tail`, joining each surrogate pair;
none where a surrogate is unpaired. -/
def joinItems (tail : List Char) : List StringItem → Option (List Char)
  | [] => some tail
  | .char c :: rest => joinItems (c :: tail) rest
  | .surrogate low :: .surrogate high :: rest =>
    if isLowSurrogate low && isHighSurrogate high then joinItems (pairedChar high low :: tail) rest
    else none
  | .surrogate _ :: _ => none

/-- The item that a `\u` escape stands for. -/
def escapeItem (unit : Nat) : StringItem :=
  if 0xD800 ≤ unit && unit < 0xE000 then .surrogate unit else .char (Char.ofNat unit)

/-- The character that a one-letter escape stands for. -/
def shortEscape? : Char → Option Char
  | '"' => some '"'
  | '\\' => some '\\'
  | '/' => some '/'
  | 'b' => some '\x08'
  | 'f' => some '\x0c'
  | 'n' => some '\n'
  | 'r' => some '\r'
  | 't' => some '\t'
  | _ => none

/-- Where the scanner stands. Strings, numbers and words hold what they have read, in reverse. -/
inductive Mode where
  | between
  | inString (items : List StringItem)
  | inEscape (items : List StringItem)
  | inUnicode (items : List StringItem) (unit digits : Nat)
  | inNumber (chars : List Char)
  | inWord (chars : List Char)

/-- The scanner: the tokens read so far, in reverse, and the mode. -/
structure Scanner where
  tokens : List Token
  mode : Mode

/-- Splits a leading run of ASCII digits off. -/
def spanDigits (s : List Char) : List Char × List Char :=
  (s.takeWhile Char.isDigit, s.dropWhile Char.isDigit)

/-- The exponent of a numeral, or none where there is no exponent; the outer option is for
ill-formed ones. -/
def exponentPart? : List Char → Option (Option (Bool × List Char))
  | [] => some none
  | e :: rest =>
    if e = 'e' ∨ e = 'E' then
      let (negative, digits) := match rest with
        | '-' :: digits => (true, digits)
        | '+' :: digits => (false, digits)
        | digits => (false, digits)
      if digits ≠ [] ∧ digits.all Char.isDigit then some (some (negative, digits)) else none
    else none

/-- The number a literal denotes: an optional minus sign, a whole part without superfluous zeros,
then optionally a fraction and an exponent. -/
def Number.ofLiteral? (s : List Char) : Option Number :=
  let (negative, unsigned) := match s with
    | '-' :: rest => (true, rest)
    | _ => (false, s)
  let (whole, afterWhole) := spanDigits unsigned
  let plain := whole ≠ [] ∧ (whole.head? ≠ some '0' ∨ whole = ['0'])
  let fraction? : Option (List Char × List Char) := match afterWhole with
    | '.' :: rest =>
      let (fraction, rest) := spanDigits rest
      if fraction = [] then none else some (fraction, rest)
    | _ => some ([], afterWhole)
  if plain then
    match fraction? with
    | none => none
    | some (fraction, rest) => (exponentPart? rest).map fun exponent =>
      { negative, whole, fraction, exponent }
  else none

def wordToken? (word : List Char) : Option Token :=
  if word = ['n', 'u', 'l', 'l'] then some .null
  else if word = ['t', 'r', 'u', 'e'] then some (.bool true)
  else if word = ['f', 'a', 'l', 's', 'e'] then some (.bool false)
  else none

/-- Whether a character may stand in a number. -/
def isNumberChar (c : Char) : Bool :=
  c.isDigit || c == '-' || c == '+' || c == '.' || c == 'e' || c == 'E'

/-- Reads a character where no token is under way. -/
def Scanner.start (tokens : List Token) (c : Char) : Option Scanner :=
  let token := fun t => some { tokens := t :: tokens, mode := .between }
  match c with
  | '{' => token .openObject
  | '}' => token .closeObject
  | '[' => token .openArray
  | ']' => token .closeArray
  | ':' => token .colon
  | ',' => token .comma
  | '"' => some { tokens, mode := .inString [] }
  | ' ' | '\t' | '\n' | '\r' => some { tokens, mode := .between }
  | _ =>
    if c.isDigit || c == '-' then some { tokens, mode := .inNumber [c] }
    else if c.isLower then some { tokens, mode := .inWord [c] }
    else none

/-- Ends the number or word under way, if there is one; a string must be closed. -/
def Scanner.flush (s : Scanner) : Option (List Token) :=
  match s.mode with
  | .between => some s.tokens
  | .inNumber chars => (Number.ofLiteral? chars.reverse).map fun n => .number n :: s.tokens
  | .inWord chars => (wordToken? chars.reverse).map fun t => t :: s.tokens
  | _ => none

def Scanner.step (s : Scanner) (c : Char) : Option Scanner :=
  match s.mode with
  | .between => Scanner.start s.tokens c
  | .inString items =>
    if c = '"' then
      some { tokens := .string ((joinItems [] items).map String.ofList) :: s.tokens,
             mode := .between }
    else if c = '\\' then some { s with mode := .inEscape items }
    else if c.toNat < 0x20 then none
    else some { s with mode := .inString (.char c :: items) }
  | .inEscape items =>
    if c = 'u' then some { s with mode := .inUnicode items 0 0 }
    else (shortEscape? c).map fun d => { s with mode := .inString (.char d :: items) }
  | .inUnicode items unit digits =>
    match Text.hexValue? c with
    | none => none
    | some d =>
      let unit := unit * 16 + d
      if digits = 3 then some { s with mode := .inString (escapeItem unit :: items) }
      else some { s with mode := .inUnicode items unit (digits + 1) }
  | .inNumber chars =>
    if isNumberChar c then some { s with mode := .inNumber (c :: chars) }
    else s.flush.bind fun tokens => Scanner.start tokens c
  | .inWord chars =>
    if c.isLower then some { s with mode := .inWord (c :: chars) }
    else s.flush.bind fun tokens => Scanner.start tokens c

def Scanner.initial : Scanner := { tokens := [], mode := .between }

/-- The tokens of a text, or none where it holds something that is no token. -/
def Token.scan (s : List Char) : Option (List Token) :=
  ((s.foldlM Scanner.step Scanner.initial).bind Scanner.flush).map List.reverse

end Json

end LedgerBench
