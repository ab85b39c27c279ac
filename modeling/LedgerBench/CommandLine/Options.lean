import LedgerBench.Binary64.Decimal
import LedgerBench.Call.Basic
/-!
The options of the command line.

A flag stands alone; a setting has a value, which every setting restricts in its own way. Some
options belong to the program as a whole and may also stand behind the subcommand, the others only
stand behind it.
-/

namespace LedgerBench

/-- How the final report is printed: as text, or as the whole statistics. -/
inductive OutputFormat where
  | text
  | json
  deriving DecidableEq, Repr

def OutputFormat.ofName? (s : String) : Option OutputFormat :=
  if s = "text" then some .text else if s = "json" then some .json else none

/-- Where on the command line a word stands: in front of the subcommand or behind it. -/
inductive Place where
  | front
  | behind (mode : CallMode)
  deriving DecidableEq, Repr

inductive Flag where
  | help
  | version
  | verbose
  deriving DecidableEq, Repr

namespace Flag

/-- The flag that a long name stands for at a place. -/
def ofName? (place : Place) (name : String) : Option Flag :=
  if name = "help" then some help
  else if name = "verbose" then some verbose
  else if name = "version" ∧ place = .front then some version
  else none

/-- The flag that a letter stands for at a place. -/
def ofLetter? (place : Place) (letter : Char) : Option Flag :=
  if letter = 'h' then some help
  else if letter = 'v' then some verbose
  else if letter = 'V' ∧ place = .front then some version
  else none

end Flag

inductive Setting where
  | logFormat
  | output
  | config
  | args
  | argsFile
  | concurrency
  | iterations
  | transientRate
  | persistentRate
  | transportRate
  deriving DecidableEq, Repr

namespace Setting

/-- The setting's name, without the hyphens in front. -/
def name : Setting → String
  | logFormat => "log-format"
  | output => "output"
  | config => "config"
  | args => "args"
  | argsFile => "args-file"
  | concurrency => "concurrency"
  | iterations => "iterations"
  | transientRate => "transient-rate"
  | persistentRate => "persistent-rate"
  | transportRate => "transport-rate"

def common : List Setting := [logFormat, output]

/-- The settings that only stand behind the subcommand. -/
def ofSubcommand : List Setting :=
  [config, args, argsFile, concurrency, iterations, transientRate, persistentRate, transportRate]

/-- The settings that may stand at a place. -/
def allowed : Place → List Setting
  | .front => common
  | .behind _ => common ++ ofSubcommand

/-- The setting with a name at a place. -/
def ofName? (place : Place) (name : String) : Option Setting :=
  (allowed place).find? fun s => s.name = name

/-- The bound of the counts: 64 bits. -/
def countBound : Nat := 2 ^ 64

def readCount? (value : String) : Option Nat := Text.readUnsigned? countBound value.toList

/-- Whether a value is one that the setting can have. -/
def accepts (s : Setting) (value : String) : Bool :=
  match s with
  | logFormat | output => (OutputFormat.ofName? value).isSome
  | config | argsFile => value ≠ ""
  | args => true
  | concurrency | iterations => (readCount? value).isSome
  | transientRate | persistentRate | transportRate => (Binary64.read? value.toList).isSome

end Setting

end LedgerBench
