import LedgerBench.CommandLine.Report
import Std.Time.DateTime.Timestamp
/-!
The program.

It reads the files that a command names, follows the schedule of the run in real time, and prints
the report. What it does with its words is `Command.ofWords`, `Command.prepare` and
`CommandLine.printResult`; here files are read, clocks are looked at, and time passes.
-/

namespace LedgerBench

/-- Why the system did not read a file. -/
def ReadError.ofSystem : IO.Error → ReadError
  | .noFileOrDirectory _ _ _ => .notFound
  | .inappropriateType _ code _ => if code = 21 then .isADirectory else .notADirectory
  | .invalidArgument _ _ _ => .nameTooLong
  | _ => .notFound

def readFile (path : String) : IO (Except ReadError (List Char)) := do
  if path.toList.contains '\x00' then return .error .nulInPath
  try
    let bytes ← IO.FS.readBinFile path
    match Bytes.decode? bytes.toList with
    | some text => return .ok text
    | none => return .error .notText
  catch e => return .error (ReadError.ofSystem e)

def timeOfDay : IO Timestamp := do
  let now ← Std.Time.Timestamp.now
  return ⟨now.toMillisecondsSinceUnixEpoch.val⟩

def drawSeed : IO Entropy := do
  let bytes ← IO.getRandomBytes 8
  return ⟨bytes.toList.foldl (fun seed byte => seed * 256 + byte.toUInt64) 0⟩

/-- Prints what is to be printed and gives the exit code. -/
def print (p : Printed) : IO UInt32 := do
  IO.print p.output
  IO.eprint p.errors
  return UInt32.ofNat p.exitCode

/-- The file whose text a step of a run asks for. -/
def wantedFile (c : Course SimulatedLedger) : RunLabel → Option String
  | .act group =>
    match c.groups[group]? with
    | some { todo := .act (.resolve .file body) _, .. } => some (String.ofList body)
    | _ => none
  | _ => none

/-- A run with a file in reach. -/
def provide (c : Course SimulatedLedger) (path : String) (content : Except ReadError (List Char)) :
    Course SimulatedLedger :=
  { c with world := { c.world with scope := { c.world.scope with
    files := FileReader.withFile c.world.scope.files path content } } }

/-- The most milliseconds that the system sleeps at once. -/
def longestSleep : Nat := 2 ^ 32 - 1

/-- Lets the time pass that a step of a run waits for. -/
def passTime (before after : Course SimulatedLedger) : IO Unit := do
  let time := (after.world.clock - before.world.clock).millis
  for _ in List.range (time / longestSleep) do
    IO.sleep (UInt32.ofNat longestSleep)
  IO.sleep (UInt32.ofNat (time % longestSleep))

/-- Follows the schedule of a run in real time. -/
partial def follow (ledger : Ledger SimulatedLedger) (c : Course SimulatedLedger) :
  IO (Course SimulatedLedger) := do
  match c.next? ledger with
  | none => return c
  | some label =>
    let ready ← match wantedFile c label with
      | some path => pure (provide c path (← readFile path))
      | none => pure c
    match ready.step ledger label with
    | none => return ready
    | some later =>
      if label = .wait then passTime ready later
      follow ledger later

def perform (command : Command) (p : Command.Prepared) : IO Printed := do
  let startedAt ← timeOfDay
  let session := CommandLine.session (fun _ => .error .notFound) (← drawSeed) startedAt
  match p.bench.begin session p.specs command.mode startedAt with
  | .error e => return CommandLine.printResult command.output (.error e)
  | .ok course =>
    let course ← follow p.bench.ledger course
    return CommandLine.printResult command.output (Bench.conclude course (← timeOfDay))

end LedgerBench

open LedgerBench in
/-- Runs the command that the words stand for. -/
def main (words : List String) : IO UInt32 := do
  match Command.ofWords words with
  | .error stop => print (CommandLine.stopped stop)
  | .ok command =>
    let mut files : FileReader := fun _ => .error .notFound
    for path in command.paths do
      files := FileReader.withFile files path (← readFile path)
    match command.prepare files with
    | .error failure => print (Printed.failed "" failure)
    | .ok p => print (← perform command p)
