import LedgerBench.Json.Value
/-!
Typed reading of JSON values.

A record is written as an object or as an array of its fields in order. `fields?` lines the values
up with the record's field names: in an object a known name may stand once, an unknown one is
skipped or, in a strict record, refused; in an array trailing fields may be missing but no value may
be left over. Whether a missing field is an error is up to the record. A choice is written as its
name, or as an object with the name as its only member.
-/

namespace LedgerBench

namespace Json

def asText? : Json → Option String
  | .string s => s
  | _ => none

def asNat? (bound : Nat) : Json → Option Nat
  | .number n => n.toNat?.filter (· < bound)
  | _ => none

/-- An integer in `[-bound, bound)`. -/
def asInt? (bound : Nat) : Json → Option Int
  | .number n => n.toInt?.filter fun i => -(bound : Int) ≤ i ∧ i < bound
  | _ => none

/-- A binary64 number; integers count as numbers. -/
def asBinary64? : Json → Option Binary64
  | .number n => n.toBinary64?
  | _ => none

def asList? {α : Type} (item : Json → Option α) : Json → Option (List α)
  | .array elements => elements.mapM item
  | _ => none

/-- A value that `item` reads, or null. -/
def asOptional? {α : Type} (item : Json → Option α) : Json → Option (Option α)
  | .null => some none
  | v => (item v).map some

/-- How often an object names a member. -/
def occurrences (name : String) (members : List (Option String × Json)) : Nat :=
  members.countP fun (n, _) => n == some name

/-- The value of the first member with a name. -/
def member? (name : String) (members : List (Option String × Json)) : Option Json :=
  (members.find? fun (n, _) => n == some name).map Prod.snd

/-- Whether a member may stand in a record with these field names. -/
def admits (names : List String) (strict : Bool) : Option String → Bool
  | none => false
  | some name => !strict || names.contains name

/-- The values of a record's fields, in the order of `names`; a missing one is none. -/
def fields? (names : List String) (strict : Bool) : Json → Option (List (Option Json))
  | .array elements =>
    if elements.length ≤ names.length then
      some (elements.map some ++ List.replicate (names.length - elements.length) none)
    else none
  | .object members =>
    if (members.all fun (n, _) => admits names strict n)
        && (names.all fun name => occurrences name members ≤ 1) then
      some (names.map fun name => member? name members)
    else none
  | _ => none

/-- A field that must be there. -/
def required? {α : Type} (item : Json → Option α) : Option Json → Option α
  | none => none
  | some v => item v

/-- A field with a default. -/
def withDefault? {α : Type} (default : α) (item : Json → Option α) : Option Json → Option α
  | none => some default
  | some v => item v

/-- The name of a choice and what it carries: nothing where the name stands alone. -/
def choice? : Json → Option (String × Option Json)
  | .string (some name) => some (name, none)
  | .object [(some name, v)] => some (name, some v)
  | _ => none

/-- The name of a choice that carries nothing, or null. -/
def plainChoice? (v : Json) : Option String :=
  match choice? v with
  | some (name, none) => some name
  | some (name, some .null) => some name
  | _ => none

end Json

end LedgerBench
