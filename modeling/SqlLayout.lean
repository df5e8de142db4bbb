import SqlLayout.Decimal.Shortest
import SqlLayout.Fault
import SqlLayout.Formatter
import SqlLayout.Keyword.Registry
import SqlLayout.Layout.Statements
import SqlLayout.Notice
import SqlLayout.Proofs.Partition
import SqlLayout.Report
import SqlLayout.Style.Basic
import SqlLayout.Text.Quoted
import SqlLayout.Token.Lexer
import SqlLayout.Token.Stream
import SqlLayout.Tree.Tokens
import SqlLayout.Tree.Walk
import SqlLayout.Value
import SqlLayout.Proofs.Drawing
import SqlLayout.Proofs.Carrying
import SqlLayout.Proofs.Casing
import SqlLayout.Proofs.Clearance
import SqlLayout.Proofs.Completeness
import SqlLayout.Proofs.Gluing
import SqlLayout.Proofs.Placing
import SqlLayout.Proofs.Relexing
import SqlLayout.Proofs.Conservation
import SqlLayout.Proofs.Whitespace
import SqlLayout.Proofs.Ordinary
import SqlLayout.Proofs.Detaching
import SqlLayout.Proofs.Unfailing
import SqlLayout.Proofs.Annotating
import SqlLayout.Proofs.Capitals
import SqlLayout.Proofs.Grouping
import SqlLayout.Proofs.Stepping
import SqlLayout.Proofs.Breaking
import SqlLayout.Proofs.Trailing
import SqlLayout.Proofs.Signing
import SqlLayout.Proofs.Isolating
import SqlLayout.Proofs.Phrasing
import SqlLayout.Proofs.Promoting
import SqlLayout.Proofs.Bracketing
import SqlLayout.Proofs.Chaining
import SqlLayout.Proofs.Wrapping
import SqlLayout.Proofs.Storing
import SqlLayout.Proofs.Configuring
import SqlLayout.Proofs.Branching
import SqlLayout.Proofs.Quoting
import SqlLayout.Proofs.Deferring
import SqlLayout.Proofs.Leveling
import SqlLayout.Proofs.Settling
