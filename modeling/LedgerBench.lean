import LedgerBench.Binary64.Basic
import LedgerBench.Binary64.Decimal
import LedgerBench.Call.Basic
import LedgerBench.Call.Batch
import LedgerBench.Call.Handler
import LedgerBench.Call.Wire
import LedgerBench.CommandLine.Command
import LedgerBench.CommandLine.Options
import LedgerBench.CommandLine.Report
import LedgerBench.CommandLine.Words
import LedgerBench.Duration
import LedgerBench.Entropy
import LedgerBench.Executor.Basic
import LedgerBench.Executor.Trial
import LedgerBench.Files
import LedgerBench.IdSource
import LedgerBench.Json.Decode
import LedgerBench.Json.Printer
import LedgerBench.Json.Reader
import LedgerBench.Json.Token
import LedgerBench.Json.Value
import LedgerBench.Ledger.Basic
import LedgerBench.Ledger.Scripted
import LedgerBench.Ledger.Simulated
import LedgerBench.Main
import LedgerBench.Keyed
import LedgerBench.Natural
import LedgerBench.Progress
import LedgerBench.Proofs.Executor.Drained
import LedgerBench.Proofs.Executor.Dropped
import LedgerBench.Proofs.Executor.Limit
import LedgerBench.Proofs.Run.Accounting
import LedgerBench.Proofs.Run.Complete
import LedgerBench.Proofs.Run.History
import LedgerBench.Proofs.Run.Tally
import LedgerBench.Proofs.Run.Variables
import LedgerBench.Proofs.Run.Workers
import LedgerBench.Proofs.Task.Attempts
import LedgerBench.Proofs.Task.Endorsed
import LedgerBench.Proofs.Task.Group
import LedgerBench.Proofs.Task.Invocation
import LedgerBench.Proofs.Task.Path
import LedgerBench.Proofs.Task.Trace
import LedgerBench.Proofs.Text.Cut
import LedgerBench.Retry.Loop
import LedgerBench.Retry.Policy
import LedgerBench.Run.Bench
import LedgerBench.Run.Config
import LedgerBench.Run.Course
import LedgerBench.Run.Description
import LedgerBench.Run.Drive
import LedgerBench.Run.Report
import LedgerBench.Run.Session
import LedgerBench.Run.Statistics
import LedgerBench.Task.Call
import LedgerBench.Task.Event
import LedgerBench.Task.Program
import LedgerBench.Task.Tree
import LedgerBench.Task.World
import LedgerBench.Template.Expand
import LedgerBench.Template.Form
import LedgerBench.Template.Resolve
import LedgerBench.Text.Blank
import LedgerBench.Text.Bytes
import LedgerBench.Text.Cut
import LedgerBench.Text.Numeral
import LedgerBench.Text.Quoted
import LedgerBench.Text.Visible
import LedgerBench.Timestamp
import LedgerBench.Ulid
import LedgerBench.Proofs.Template.Scan
import LedgerBench.Proofs.Template.Tree
import LedgerBench.Proofs.Template.CallByValue
import LedgerBench.Proofs.Task.Numbered
import LedgerBench.Proofs.Run.Numbers
import LedgerBench.Proofs.Run.Queue
import LedgerBench.Proofs.Task.Interpret
import LedgerBench.Proofs.Run.Progress
import LedgerBench.Proofs.Task.Plain
import LedgerBench.Proofs.Run.Sequential
import LedgerBench.Proofs.Run.InFlight
import LedgerBench.Proofs.Run.Expansion
import LedgerBench.Proofs.Run.Accepted
import LedgerBench.Proofs.Task.Replay
import LedgerBench.Proofs.Run.Isolation
import LedgerBench.Proofs.Text.Numeral
import LedgerBench.Proofs.Json.Number
import LedgerBench.Proofs.Json.Spelling
import LedgerBench.Proofs.Json.RoundTrip
import LedgerBench.Proofs.Ulid
import LedgerBench.Proofs.Json.Record
import LedgerBench.Proofs.Call.Wire
import LedgerBench.Retry.Rehearsal
import LedgerBench.Proofs.Retry.Law
import LedgerBench.Proofs.Task.Heard
import LedgerBench.Proofs.Task.Submitted
import LedgerBench.Proofs.Task.Delivered
import LedgerBench.Proofs.Call.Handler
import LedgerBench.Proofs.Task.Uses
import LedgerBench.Proofs.Task.Reports
import LedgerBench.Proofs.Template.Diagnostics
import LedgerBench.Proofs.Binary64.Rounding
import LedgerBench.Proofs.Duration
import LedgerBench.Proofs.Retry.Backoff
import LedgerBench.Proofs.Run.Summary
import LedgerBench.Proofs.Run.Fold
import LedgerBench.Proofs.Run.Start
import LedgerBench.Proofs.Run.Built
import LedgerBench.Proofs.Text.Bytes
import LedgerBench.Proofs.Ledger.Signature
import LedgerBench.Proofs.Task.Succeeded
import LedgerBench.Proofs.Ledger.Scripted
import LedgerBench.Proofs.Ledger.Simulated
import LedgerBench.Proofs.Json.Grammar
import LedgerBench.Proofs.Call.Batch
import LedgerBench.Proofs.Call.ValidationCode
import LedgerBench.Proofs.Json.Settings
import LedgerBench.Proofs.CommandLine.Layering
import LedgerBench.Proofs.Text.Blank
import LedgerBench.Proofs.Template.Pad
import LedgerBench.Proofs.IdSource
import LedgerBench.Proofs.Task.Committed
import LedgerBench.Proofs.Run.Transactions
import LedgerBench.Proofs.CommandLine.Report
