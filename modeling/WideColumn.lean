import WideColumn.Client.Scan
import WideColumn.Client.Script
import WideColumn.Proofs.Merge
import WideColumn.Proofs.Scan
import WideColumn.Proofs.Serial
import WideColumn.Record.Request
import WideColumn.Record.Response
import WideColumn.Proofs.Grammar
import WideColumn.Proofs.Double
import WideColumn.Proofs.Lexeme
import WideColumn.Proofs.Nearest
import WideColumn.Proofs.Numeral
import WideColumn.Proofs.Shortest
import WideColumn.Proofs.Written
import WideColumn.Proofs.ReadBack
import WideColumn.Proofs.Allocation
import WideColumn.Proofs.Refusal
import WideColumn.Proofs.Binding
import WideColumn.Proofs.SharedScan
import WideColumn.Proofs.RowByRow
import WideColumn.Proofs.Lifetime
import WideColumn.Proofs.Fields
import WideColumn.Proofs.Absent
import WideColumn.Proofs.Frame
import WideColumn.Proofs.Guard
import WideColumn.Proofs.Locking
import WideColumn.Proofs.Base64
import WideColumn.Proofs.Wire
import WideColumn.Proofs.Records
import WideColumn.Proofs.JsonText
import WideColumn.Proofs.Token
import WideColumn.Proofs.Continuation
import WideColumn.Proofs.Routing
import WideColumn.Proofs.Identity
import WideColumn.Proofs.Commutation
import WideColumn.Proofs.FullScan
import WideColumn.Proofs.Unsent
import WideColumn.Proofs.Grouping
import WideColumn.Proofs.Counter
import WideColumn.Proofs.Description
import WideColumn.Proofs.Parentheses
import WideColumn.Proofs.ColumnOptions
import WideColumn.Proofs.QuotedColumn
import WideColumn.Proofs.Visibility
import WideColumn.Proofs.Effect
import WideColumn.Proofs.Distinct
import WideColumn.Proofs.Returned
import WideColumn.Proofs.KeyByKey
import WideColumn.Proofs.Search
import WideColumn.Proofs.WellFormed
import WideColumn.Proofs.PageByPage
