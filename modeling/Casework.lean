import Casework.Text.Blank
import Casework.Text.Position
import Casework.Text.Printable
import Casework.Text.Quoted
import Casework.Number.Double
import Casework.Number.Decimal
import Casework.Tree.Literal
import Casework.Tree.Expr
import Casework.Tree.Stmt
import Casework.Tree.Same
import Casework.Printer.Expr
import Casework.Printer.Layout
import Casework.Reader.Reply
import Casework.Reader.Gap
import Casework.Reader.Token
import Casework.Reader.Expression
import Casework.Reader.Statement
import Casework.Reader.Program
import Casework.Condition
import Casework.Event
import Casework.Resolution
import Casework.Chain
import Casework.Switch
import Casework.Dispatch
import Casework.ConvertError
import Casework.Match
import Casework.Conversion
import Casework.Command.Options
import Casework.Command.Run
import Casework.Main
import Casework.Proofs.Decimal
import Casework.Proofs.Reading
import Casework.Proofs.Gap
import Casework.Proofs.Token
import Casework.Proofs.Tower
import Casework.Proofs.Written
import Casework.Proofs.Expression
import Casework.Proofs.Settle
import Casework.Proofs.Layout
import Casework.Proofs.Statement
import Casework.Proofs.RoundTrip
import Casework.Proofs.Dispatch
import Casework.Proofs.Valid
import Casework.Proofs.Lead
import Casework.Proofs.Residue
import Casework.Proofs.Advance
import Casework.Proofs.Reformat
import Casework.Proofs.Nesting
import Casework.Proofs.Conditional
import Casework.Proofs.Conserve
import Casework.Proofs.Jump
import Casework.Proofs.Lexical
import Casework.Proofs.Remainder
import Casework.Proofs.Selection
import Casework.Proofs.Predicate
import Casework.Proofs.Precedence
import Casework.Proofs.Arms
import Casework.Proofs.Spacing
import Casework.Proofs.Extension
import Casework.Proofs.Closing
import Casework.Proofs.Body
import Casework.Proofs.Keys
import Casework.Proofs.Cases
import Casework.Proofs.Adjoining
import Casework.Proofs.Trailing
import Casework.Proofs.Numeral
import Casework.Proofs.Report
import Casework.Proofs.Comments
import Casework.Proofs.Rounds
import Casework.Proofs.Handover
