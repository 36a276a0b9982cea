import Callboard.Builtin
import Callboard.Dispatch.Board
import Callboard.Dispatch.Entry
import Callboard.Dispatch.Execute
import Callboard.Dispatch.Script
import Callboard.Dispatch.State
import Callboard.Failure.Basic
import Callboard.Failure.Build
import Callboard.Http.Address
import Callboard.Http.App
import Callboard.Http.Body
import Callboard.Http.Content
import Callboard.Http.Percent
import Callboard.Http.Reference
import Callboard.Http.Request
import Callboard.Http.Route
import Callboard.Http.Target
import Callboard.Invocation.Basic
import Callboard.Invocation.Casual
import Callboard.Json.Encoding
import Callboard.Json.Escape
import Callboard.Json.Reader
import Callboard.Json.Writer
import Callboard.Literal.Printer
import Callboard.Literal.Reader
import Callboard.Log.Line
import Callboard.Log.Record
import Callboard.Log.Sink
import Callboard.Log.Template
import Callboard.Message
import Callboard.Number.Binary64
import Callboard.Number.Fixed
import Callboard.Number.Numeral
import Callboard.Number.Shortest
import Callboard.Problem.Basic
import Callboard.Problem.Context
import Callboard.Problem.Desk
import Callboard.Problem.Vocabulary
import Callboard.Proofs.Dispatch.Containment
import Callboard.Proofs.Dispatch.Reference
import Callboard.Proofs.Invocation.Calm
import Callboard.Proofs.Invocation.Canonical
import Callboard.Proofs.Invocation.RoundTrip
import Callboard.Proofs.Invocation.Shape
import Callboard.Proofs.Literal.Acceptance
import Callboard.Proofs.Literal.Grammar
import Callboard.Proofs.Literal.Depth
import Callboard.Proofs.Literal.Image
import Callboard.Proofs.Literal.QuotedToken
import Callboard.Proofs.Literal.Written
import Callboard.Proofs.Literal.WrittenText
import Callboard.Proofs.Number.Nearest
import Callboard.Proofs.Number.ReadBack
import Callboard.Proofs.Number.Spelling
import Callboard.Proofs.Text.Digits
import Callboard.Proofs.Text.Span
import Callboard.Proofs.Value.Fields
import Callboard.Registry
import Callboard.Service
import Callboard.Settings
import Callboard.Signature
import Callboard.Text.Basic
import Callboard.Text.Blank
import Callboard.Text.DecimalDigit
import Callboard.Text.Encodable
import Callboard.Text.Identifier
import Callboard.Text.Printable
import Callboard.Text.Quoted
import Callboard.Text.Utf8
import Callboard.Text.Wide
import Callboard.Validation.Coerce
import Callboard.Validation.Issue
import Callboard.Validation.Report
import Callboard.Value.Basic
import Callboard.Value.Display
import Callboard.Proofs.Invocation.CasualGrammar
import Callboard.Proofs.Dispatch.Ledger
import Callboard.Proofs.Dispatch.Alone
import Callboard.Proofs.Dispatch.Steady
import Callboard.Proofs.Dispatch.Independence
import Callboard.Proofs.Http.Content
import Callboard.Proofs.Http.Run
import Callboard.Proofs.Dispatch.Course
import Callboard.Proofs.Dispatch.Account
import Callboard.Proofs.Dispatch.Balance
import Callboard.Proofs.Dispatch.Lenience
import Callboard.Proofs.Http.Agreement
import Callboard.Proofs.Http.Secrecy
import Callboard.Proofs.Registry.History
import Callboard.Proofs.Registry.Book
import Callboard.Proofs.Http.Views
import Callboard.Proofs.Invocation.Split
import Callboard.Proofs.Invocation.Enclosed
import Callboard.Proofs.Invocation.NormalForm
import Callboard.Proofs.Invocation.Shown
import Callboard.Proofs.Literal.AnyDepth
import Callboard.Proofs.Literal.Cursor
import Callboard.Proofs.Literal.Moves
import Callboard.Proofs.Literal.Progress
import Callboard.Proofs.Literal.Opened
import Callboard.Proofs.Literal.Pinpoint
import Callboard.Proofs.Json.ReadBack
import Callboard.Proofs.Problem.Sharing
import Callboard.Proofs.Log.Forgery
import Callboard.Proofs.Invocation.Barrier
