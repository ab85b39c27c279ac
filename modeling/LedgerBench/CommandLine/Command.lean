import LedgerBench.CommandLine.Words
import LedgerBench.Ledger.Simulated
import LedgerBench.Run.Session
/-!
The commands of the command line, and how a command becomes a run.

A command names a batch and may name a configuration file, some of whose values it overrides. More
iterations than the queue has slots raise the queue's capacity. Everything that can go wrong before
the first call goes wrong in `Command.prepare`, with the outermost fact first and its causes behind
it.
-/

namespace LedgerBench

inductive BatchSource where
  | inline (text : String)
  | file (path : String)
  deriving DecidableEq, Repr

structure Command where
  mode : CallMode
  batch : BatchSource
  output : OutputFormat := .text
  config : Option String := none
  concurrency : Option Nat := none
  iterations : Option Nat := none
  /-- How the ledger behaves that calls are made to. -/
  profile : SimulationProfile := {}
  deriving DecidableEq, Repr

/-- Why a command leads to no successful run: the outermost fact, and its causes, each caused by the
next. -/
structure Failure where
  message : String
  causes : List String := []
  deriving DecidableEq, Repr

namespace Failure

/-- A text whose lines but the first are indented. -/
def hanging (indent s : String) : String :=
  String.join (s.toList.map fun c => if c = '\n' then "\n" ++ indent else String.ofList [c])

/-- The number in front of a cause, in five columns. -/
def label (index : Nat) : String :=
  String.ofList (Text.padLeft ' ' 5 (Text.decimal index)) ++ ": "

/-- A cause on lines of its own: indented if it is the only one, numbered if there are more. -/
def causeText (alone : Bool) (index : Nat) (cause : String) : String :=
  if alone then "\n    " ++ hanging "    " cause
  else "\n" ++ label index ++ hanging "       " cause

/-- The text of a failure. -/
def text (f : Failure) : String :=
  "Error: " ++ f.message
    ++ (if f.causes = [] then ""
      else "\n\nCaused by:"
        ++ String.join (f.causes.mapIdx (causeText (f.causes.length = 1))))
    ++ "\n"

/-- A failure with one more fact around it. -/
def within (message : String) (f : Failure) : Failure :=
  { message, causes := f.message :: f.causes }

/-- A file cannot be read. -/
def ofReadError (e : ReadError) : Failure := { message := e.message }

def ofConfigError (e : ConfigError) : Failure where
  message := e.message
  causes := match e with
    | .unreadable _ cause => [cause.message]
    | .malformed => [ConfigError.malformedReason]
    | .retry cause => [cause.message]

def ofBuildError (e : BuildError) : Failure where
  message := e.message
  causes := match e with
    | .retry cause => [cause.message]
    | _ => []

def ofRunError (e : RunError) : Failure where
  message := e.message
  causes := match e with
    | .submission _ cause => [cause.message]
    | _ => []

end Failure

namespace Command

/-- The rate that a setting gives, or the default one. -/
def rate (w : Words) (s : Setting) (default : Binary64) : Binary64 :=
  ((w.value? s).bind fun value => Binary64.read? value.toList).getD default

def count? (w : Words) (s : Setting) : Option Nat := (w.value? s).bind Setting.readCount?

/-- The one batch that the words name. -/
def batch? (w : Words) : Option BatchSource :=
  match w.value? .args, w.value? .argsFile with
  | some text, none => some (.inline text)
  | none, some path => some (.file path)
  | _, _ => none

def output? (w : Words) : Option OutputFormat := (w.value? .output).bind OutputFormat.ofName?

/-- The command that the words stand for. What stands behind the subcommand goes before what stands
in front. -/
def ofWords (words : List String) : Except Stop Command := do
  let (mode, front, behind) ← Words.read words
  let default : SimulationProfile := {}
  match batch? behind with
  | none => .error .misuse
  | some batch =>
    pure {
      mode
      batch
      output := ((output? behind).or (output? front)).getD .text
      config := behind.value? .config
      concurrency := count? behind .concurrency
      iterations := count? behind .iterations
      profile := { default with
        transientRate := rate behind .transientRate default.transientRate
        persistentRate := rate behind .persistentRate default.persistentRate
        transportRate := rate behind .transportRate default.transportRate } }

/-- A configuration with the command's own values. -/
def override (c : Command) (config : Config) : Config :=
  let config := { config with concurrency := c.concurrency.getD config.concurrency }
  match c.iterations with
  | none => config
  | some iterations =>
    { config with iterations, queueCapacity := max config.queueCapacity iterations }

def paths (c : Command) : List String :=
  c.config.toList ++ (match c.batch with
    | .inline _ => []
    | .file path => [path])

def loadConfig (files : FileReader) (c : Command) : Except Failure Config :=
  match c.config with
  | none => .ok (c.override {})
  | some path =>
    match Config.ofFile files path with
    | .ok config => .ok (c.override config)
    | .error e => .error ((Failure.ofConfigError e).within ("loading config " ++ path))

def loadBatch (files : FileReader) (c : Command) : Except Failure String :=
  match c.batch with
  | .inline text => .ok text
  | .file path =>
    match files path with
    | .ok text => .ok (String.ofList text)
    | .error e => .error ((Failure.ofReadError e).within ("reading batch file " ++ path))

/-- The bench of a command, over a simulated ledger. -/
def loadBench (c : Command) (config : Config) : Except Failure (Bench SimulatedLedger) :=
  let plan : BenchPlan SimulatedLedger := { config }
  match (plan.withVerifyingLedger (SimulatedLedger.ledger c.profile)
    SimulatedLedger.verify).build with
  | .ok bench => .ok bench
  | .error e => .error ((Failure.ofBuildError e).within "invalid run configuration")

/-- What a command runs: a bench and the calls of its batch. -/
structure Prepared where
  bench : Bench SimulatedLedger
  specs : List CallSpec

/-- Reads and checks everything that a command needs. -/
def prepare (files : FileReader) (c : Command) : Except Failure Prepared := do
  let config ← c.loadConfig files
  let batch ← c.loadBatch files
  let bench ← c.loadBench config
  match CallSpec.readBatch batch with
  | .ok specs => pure { bench, specs }
  | .error e => .error (Failure.ofRunError (.batch e))

end Command

end LedgerBench
