import LedgerBench.CommandLine.Command
import LedgerBench.Entropy
import LedgerBench.Json.Printer
import LedgerBench.Run.Report
/-!
What the program prints, and how it exits.

The statistics of a run go to the output, as text or as JSON; failures go to the errors. The exit
code is zero exactly when every call succeeded or the request was answered at once, two for a
command line that makes no sense, and one for everything else that goes wrong. `CommandLine.answer`
is the whole program as a function of its words, the files, a seed and the time of day.
-/

namespace LedgerBench

/-- What a program prints and the code it exits with. -/
structure Printed where
  exitCode : Nat := 0
  output : String := ""
  errors : String := ""
  deriving DecidableEq, Repr

namespace Printed

def abortCode : Nat := 101

/-- A program that stops in the middle after some output. -/
def aborted (output reason : String) : Printed where
  exitCode := abortCode
  output := output
  errors := reason ++ "\n"

/-- A program that ends with a failure after some output. -/
def failed (output : String) (f : Failure) : Printed where
  exitCode := 1
  output := output
  errors := f.text

end Printed

namespace CommandLine

/-- The name and version of the program. -/
def versionLine : String := "fabload 0.1.0"

/-- The options that stand in front of a subcommand and behind it. -/
def commonHelp : String :=
  "  -v, --verbose...               Increase log verbosity (-v debug, -vv trace)\n"
    ++ "      --log-format <LOG_FORMAT>  [default: text] [possible values: text, json]\n"
    ++ "      --output <OUTPUT>          How the final report is printed [default: text] [possible values: text, json]\n"
    ++ "  -h, --help                     Print help\n"

def programHelp : String :=
  "Drive batches of ledger calls concurrently and report statistics\n\n"
    ++ "Usage: fabload [OPTIONS] <COMMAND>\n\n"
    ++ "Commands:\n"
    ++ "  invoke  Submit mutating calls and wait for them to commit\n"
    ++ "  query   Send read-only calls and validate their endorsements\n"
    ++ "  help    Print this message or the help of the given subcommand(s)\n\n"
    ++ "Options:\n" ++ commonHelp
    ++ "  -V, --version                  Print version\n"

/-- What a subcommand does and its name. -/
def subcommandTitle : CallMode → String × String
  | .submit => ("Submit mutating calls and wait for them to commit", "invoke")
  | .query => ("Send read-only calls and validate their endorsements", "query")

def subcommandHelp (mode : CallMode) : String :=
  let (title, name) := subcommandTitle mode
  title ++ "\n\nUsage: fabload " ++ name ++ " [OPTIONS]\n\nOptions:\n"
    ++ "      --config <CONFIG>                    JSON config file; missing keys take defaults\n"
    ++ "      --args <ARGS>                        Batch as inline JSON\n"
    ++ "      --args-file <ARGS_FILE>              Batch read from a JSON file\n"
    ++ "      --concurrency <CONCURRENCY>          Worker count, overrides the config file\n"
    ++ "      --iterations <ITERATIONS>            Number of times the batch is run, overrides the config file\n"
    ++ "      --transient-rate <TRANSIENT_RATE>    Share of simulated calls that hit a read conflict\n"
    ++ "      --persistent-rate <PERSISTENT_RATE>  Share of simulated calls that fail terminally\n"
    ++ "      --transport-rate <TRANSPORT_RATE>    Share of simulated calls that get no response\n"
    ++ commonHelp

/-- What is printed where the words make no command. -/
def stopped : Stop → Printed
  | .help none => { output := programHelp }
  | .help (some mode) => { output := subcommandHelp mode }
  | .version => { output := versionLine ++ "\n" }
  | .misuse => {
      exitCode := 2
      errors := "error: invalid command line\n\nFor more information, try '--help'.\n" }

/-- How the program ends after it has printed the report of a run. -/
def ending (s : RunStatistics) (output : String) : Printed :=
  if s.isSuccess then { output }
  else
    Printed.failed output {
      message := Text.natText s.failures.length ++ " of " ++ Text.natText s.invocations
        ++ " invocation(s) failed" }

/-- A text on lines of its own, if there is one. -/
def printedLine : Option String → String
  | some s => s ++ "\n"
  | none => ""

/-- Prints a run as text: its failures, and then the summary or, where there is none, the
response. -/
def printText (s : RunStatistics) : Printed :=
  let failures := printedLine (Report.failureReport s)
  match Report.summaryBlock s with
  | .error _ => Printed.aborted failures "overflow when adding durations"
  | .ok (some summary) => ending s (failures ++ printedLine (some summary))
  | .ok none => ending s (failures ++ printedLine (Report.responseLine s))

def printResult (format : OutputFormat) : Except RunError RunStatistics → Printed
  | .error (.panicked reason) => Printed.aborted "" reason
  | .error e => Printed.failed "" (Failure.ofRunError e)
  | .ok s =>
    match format with
    | .json => ending s (s.toJson.pretty ++ "\n")
    | .text => printText s

/-- The session of a program that starts at a time of day. -/
def session (files : FileReader) (entropy : Entropy) (startedAt : Timestamp) :
    Session SimulatedLedger where
  ledger := { draws := entropy.draws 0 }
  draws := entropy.draws 1
  files := files
  ids := IdSource.timed (fun _ => startedAt) (entropy.wide 2)

/-- The whole program. Time passes as the ledger and the retries take it. -/
def answer (words : List String) (files : FileReader) (entropy : Entropy)
    (timeOfDay : Duration → Timestamp) : Printed :=
  match Command.ofWords words with
  | .error stop => stopped stop
  | .ok command =>
    match command.prepare files with
    | .error failure => Printed.failed "" failure
    | .ok p =>
      let start := session files entropy (timeOfDay Duration.zero)
      printResult command.output (p.bench.runSpecs start p.specs command.mode timeOfDay).1

end CommandLine

end LedgerBench
