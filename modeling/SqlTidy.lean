import SqlTidy.Format
import SqlTidy.Proofs.Ink
import SqlTidy.Proofs.Letter
import SqlTidy.Proofs.Lexeme
import SqlTidy.Proofs.Case.Command
import SqlTidy.Proofs.Case.Statement
import SqlTidy.Proofs.RoundTrip
import SqlTidy.Proofs.Partition
import SqlTidy.Proofs.Respace
import SqlTidy.Proofs.Stored
import SqlTidy.Proofs.Balance
import SqlTidy.Proofs.Keep.Basic
import SqlTidy.Proofs.Keep.Clause
import SqlTidy.Proofs.Keep.Command
import SqlTidy.Proofs.Keep.Statement
import SqlTidy.Proofs.Literal
import SqlTidy.Proofs.Flat.FixedPoint
import SqlTidy.Proofs.Locate
import SqlTidy.Proofs.Precedence.Statement
import SqlTidy.Proofs.Filled.Statement
import SqlTidy.Proofs.Abreast.Semicolon
import SqlTidy.Proofs.Modifier
import SqlTidy.Proofs.DataType
import SqlTidy.Proofs.Tunnel
import SqlTidy.Proofs.Setting.Replay
import SqlTidy.Proofs.Condition
import SqlTidy.Proofs.QueryStart
import SqlTidy.Proofs.Window.Suffix
import SqlTidy.Proofs.Clause.Order
import SqlTidy.Proofs.Tidy.Statement
import SqlTidy.Proofs.Rows
import SqlTidy.Proofs.Caret
import SqlTidy.Proofs.Hang.Statement
