import LedgerBench.Text.Numeral
import LedgerBench.Text.Visible
/-!
Quoted texts for people who debug.

A text stands between double quotes. The quote, the backslash and four control characters have a
short escape, and every other character that would not be seen is written as its code point in
hexadecimal. A record is written with its name and its fields in order.
-/

namespace LedgerBench.Text

def quotedChar (c : Char) : String :=
  match c with
  | '\x00' => "\\0"
  | '\t' => "\\t"
  | '\n' => "\\n"
  | '\r' => "\\r"
  | '"' => "\\\""
  | '\\' => "\\\\"
  | _ =>
    if isVisible c then String.ofList [c]
    else "\\u\x7b" ++ String.ofList (Nat.toDigits 16 c.toNat) ++ "\x7d"

def quoted (s : String) : String := "\"" ++ String.join (s.toList.map quotedChar) ++ "\""

def bracketedList (items : List String) : String := "[" ++ ", ".intercalate items ++ "]"

/-- Fields with their names. -/
def namedFields (fields : List (String × String)) : String :=
  ", ".intercalate (fields.map fun (name, value) => name ++ ": " ++ value)

/-- A record with its name and all its fields. -/
def recordText (name : String) (fields : List (String × String)) : String :=
  name ++ " \x7b " ++ namedFields fields ++ " \x7d"

/-- A record with its name and some of its fields. -/
def partialRecordText (name : String) (fields : List (String × String)) : String :=
  name ++ " \x7b " ++ namedFields fields ++ ", .. \x7d"

end LedgerBench.Text
