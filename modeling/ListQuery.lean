import ListQuery.Environment
import ListQuery.Notice
import ListQuery.Session
import ListQuery.Proofs.Text.Percent
import ListQuery.Proofs.Params.QueryText
import ListQuery.Proofs.Filter.Clauses
import ListQuery.Proofs.OrderedMap
import ListQuery.Proofs.Plan.Change
import ListQuery.Proofs.Calendar
import ListQuery.Proofs.Json
import ListQuery.Proofs.Plan.Json
import ListQuery.Proofs.Text.Percent.Bytes
import ListQuery.Proofs.Params.Fault
import ListQuery.Proofs.Params.Replay
import ListQuery.Proofs.Session.History
import ListQuery.Proofs.Plan.Sources
import ListQuery.Proofs.Calendar.Count
import ListQuery.Proofs.Timestamp.Leftmost
import ListQuery.Proofs.Timestamp.Value
import ListQuery.Proofs.Operand
import ListQuery.Proofs.Calendar.Inverse
import ListQuery.Proofs.Timestamp.RoundTrip
import ListQuery.Proofs.Params.Segments
import ListQuery.Proofs.Plan.Segments
import ListQuery.Proofs.Number.Grammar
import ListQuery.Proofs.Window
import ListQuery.Proofs.Notice
import ListQuery.Proofs.Text.Lowercase
import ListQuery.Proofs.Target
import ListQuery.Proofs.Plan.Spelling
import ListQuery.Proofs.Number.Nearest
import ListQuery.Proofs.Number.Value
import ListQuery.Proofs.Number.Notation
import ListQuery.Proofs.Params.Document
import ListQuery.Proofs.Window.Fallback
import ListQuery.Proofs.Window.Decimal
import ListQuery.Proofs.Window.Document
import ListQuery.Proofs.Number.Radix
import ListQuery.Proofs.Number.Radix.Value
import ListQuery.Proofs.Number.Integer
import ListQuery.Proofs.Environment
import ListQuery.Proofs.Window.Skip
import ListQuery.Proofs.Text.Space
import ListQuery.Proofs.SortKey
import ListQuery.Proofs.Filter.Membership
import ListQuery.Proofs.Operand.Normal
import ListQuery.Proofs.Timestamp.Order
import ListQuery.Proofs.Params.Members
import ListQuery.Proofs.Text.Listed
import ListQuery.Proofs.Selection
import ListQuery.Proofs.Text.Utf8.Fault
import ListQuery.Proofs.Text.Utf8.Pattern
import ListQuery.Proofs.Params.Position
import ListQuery.Proofs.Text.Offset
import ListQuery.Proofs.Timestamp.Offset
import ListQuery.Proofs.Plan.Offset
