import Switchboard.Total
import Switchboard.Text.Blank
import Switchboard.Text.Pieces
import Switchboard.Text.Letters
import Switchboard.Text.Numeral
import Switchboard.Text.Extent
import Switchboard.Text.Alphanumeric
import Switchboard.Text.Hexadecimal
import Switchboard.Text.Pattern.Flags
import Switchboard.Text.Pattern.Escape
import Switchboard.Text.Pattern.Height
import Switchboard.Text.Pattern.Class
import Switchboard.Text.Pattern.Head
import Switchboard.Text.Pattern
import Switchboard.Decimal.Basic
import Switchboard.Decimal.Text
import Switchboard.Decimal.Expression
import Switchboard.Script.Argument
import Switchboard.Script.Command
import Switchboard.Script.Image
import Switchboard.Script.Problem
import Switchboard.Script.Fault
import Switchboard.Script.Token
import Switchboard.Script.Condition
import Switchboard.Script.Statement
import Switchboard.Script.Compiler
import Switchboard.Symbols
import Switchboard.Host
import Switchboard.Rehearsal
import Switchboard.Interpreter.Frame
import Switchboard.Interpreter.Scan
import Switchboard.Interpreter.Basic
import Switchboard.Interpreter.Evaluate
import Switchboard.Interpreter.Handler
import Switchboard.Interpreter.Step
import Switchboard.Calendar
import Switchboard.Schedule.Rule
import Switchboard.Schedule.Parser
import Switchboard.LogLevel
import Switchboard.LogDirective
import Switchboard.Event
import Switchboard.IdlePool
import Switchboard.Timer
import Switchboard.Document
import Switchboard.Toml.Lexeme
import Switchboard.Toml.Reader
import Switchboard.SegmentKind
import Switchboard.Directory
import Switchboard.Config.Basic
import Switchboard.Config.Problem
import Switchboard.Config.Check
import Switchboard.Config.Reader
import Switchboard.Error
import Switchboard.Segment.Counter
import Switchboard.Segment.Basic
import Switchboard.Rounding
import Switchboard.Scientific
import Switchboard.Seconds
import Switchboard.Timestamp
import Switchboard.Text.Quoted
import Switchboard.Record.Basic
import Switchboard.Record.Pool
import Switchboard.Notice
import Switchboard.Record.Sink
import Switchboard.Source
import Switchboard.Adapter
import Switchboard.Ledger
import Switchboard.Slot.Basic
import Switchboard.Slot.Run
import Switchboard.Slot.Post
import Switchboard.Exchange.Basic
import Switchboard.Exchange.Calls
import Switchboard.Exchange.Service
import Switchboard.Mailbox
import Switchboard.Server
import Switchboard.Script.Document
import Switchboard.Config.Writer
import Switchboard.Schedule.Document
import Switchboard.Event.Document
import Switchboard.Proofs.Slot.Arming
import Switchboard.Proofs.Slot.Stall
import Switchboard.Proofs.Slot.Standing
import Switchboard.Proofs.Segment.Counter
import Switchboard.Proofs.Program.Correct
import Switchboard.Proofs.Script.Enclosing
import Switchboard.Proofs.Interpreter.Course
import Switchboard.Proofs.Interpreter.Resources
import Switchboard.Proofs.Interpreter.Checked
import Switchboard.Proofs.Interpreter.Mirror
import Switchboard.Proofs.Slot.Books
import Switchboard.Proofs.Slot.Lifecycle
import Switchboard.Proofs.Exchange.Lifecycle
import Switchboard.Proofs.Exchange.Account
import Switchboard.Proofs.Exchange.Chronicle
import Switchboard.Proofs.Exchange.CallIndex
import Switchboard.Proofs.Exchange.Statistics
import Switchboard.Proofs.Exchange.Waiting
import Switchboard.Proofs.Exchange.Desk
import Switchboard.Proofs.Exchange.GroupLimit
import Switchboard.Proofs.Slot.Work
import Switchboard.Proofs.Record.Pool
import Switchboard.Proofs.Slot.Timeless
import Switchboard.Proofs.Slot.TurnLength
import Switchboard.Proofs.Slot.Records
import Switchboard.Proofs.Slot.Protocol
import Switchboard.Proofs.Slot.Alike
import Switchboard.Proofs.Exchange.Reports
import Switchboard.Proofs.Exchange.Records
import Switchboard.Proofs.Exchange.Protocol
import Switchboard.Proofs.Exchange.Dispatch
import Switchboard.Proofs.Decimal.Evaluation
import Switchboard.Proofs.Decimal.Word
import Switchboard.Proofs.Script.Header
import Switchboard.Proofs.Exchange.NextCall
import Switchboard.Proofs.Symbols.Table
import Switchboard.Proofs.Script.Kept
import Switchboard.Proofs.Exchange.Reload
import Switchboard.Proofs.Server.Stop
import Switchboard.Proofs.Interpreter.Balance
import Switchboard.Proofs.Interpreter.Trapping
import Switchboard.Proofs.Schedule.Parser
import Switchboard.Proofs.Record.Traffic
import Switchboard.Proofs.Schedule.Selection
import Switchboard.Proofs.Interpreter.Failure
import Switchboard.Proofs.Interpreter.Invocation
import Switchboard.Proofs.Interpreter.Passes
import Switchboard.Proofs.Decimal.Comparison
import Switchboard.Proofs.Decimal.Precision
import Switchboard.Proofs.Interpreter.Builtin
import Switchboard.Proofs.Exchange.Refusal
import Switchboard.Proofs.Exchange.SegmentService
import Switchboard.Proofs.Exchange.Ticker
import Switchboard.Proofs.Script.Chain
import Switchboard.Proofs.IdlePool.Discipline
import Switchboard.Proofs.Exchange.SegmentTable
import Switchboard.Proofs.Slot.Sleep
import Switchboard.Proofs.Decimal.RoundTrip
import Switchboard.Proofs.Script.Tokens
import Switchboard.Proofs.Script.Refused
import Switchboard.Proofs.Script.Matching
