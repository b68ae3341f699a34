import WideColumn.Operation
import WideColumn.Options.Basic

/-!
# Requests

One record for each operation. A field that is left at its default asks for nothing.
-/

namespace WideColumn

/-! ### Tables -/

/-- Create a table. -/
structure CreateTable where
  /-- Table name. -/
  table : String
  /-- Key columns. -/
  keys : List KeySchema
  /-- Defined columns. -/
  columns : List ColumnSchema := []
  /-- Secondary indexes. -/
  indexes : List IndexMeta := []
  /-- Reserved capacity. -/
  reserved : Capacity := {}
  /-- Retention settings. -/
  options : TableOptions := .creation
  /-- Change stream. -/
  stream : Option StreamSpec := none
deriving DecidableEq, Inhabited

/-- Delete a table. -/
structure DeleteTable where
  /-- Table name. -/
  table : String
deriving DecidableEq, Inhabited

/-- Describe a table. -/
structure DescribeTable where
  /-- Table name. -/
  table : String
deriving DecidableEq, Inhabited

/-- List the tables. -/
structure ListTables where
deriving DecidableEq, Inhabited

/-- Change the settings of a table; what is unset stays. -/
structure UpdateTable where
  /-- Table name. -/
  table : String
  /-- Reserved read capacity. -/
  reservedRead : Option Int64 := none
  /-- Reserved write capacity. -/
  reservedWrite : Option Int64 := none
  /-- Retention settings. -/
  options : TableOptions := {}
  /-- Change stream. -/
  stream : Option StreamSpec := none
deriving DecidableEq, Inhabited

/-! ### Single rows -/

/-- Read a row. -/
structure GetRow where
  /-- Table name. -/
  table : String
  /-- Key of the row. -/
  key : Key
  /-- Columns to return; none means all. -/
  columns : List String := []
  /-- Versions to return per column. -/
  maxVersions : Option Int64 := none
  /-- Versions to consider. -/
  timeRange : Option TimeRange := none
  /-- What the row has to satisfy. -/
  filter : Option Filter := none
  /-- First column returned. -/
  startColumn : Option String := none
  /-- Column before which the row is cut. -/
  endColumn : Option String := none
  /-- Transaction that the read belongs to. -/
  transaction : Option String := none
deriving BEq, Inhabited

/-- Put a row, replacing what was there. -/
structure PutRow where
  /-- Table name. -/
  table : String
  /-- Key of the row. -/
  key : Key
  /-- Cells of the row. -/
  cells : List Cell := []
  /-- What the write expects. -/
  condition : Condition := {}
  /-- What the write returns. -/
  returnType : ReturnType := .none
  /-- Transaction that the write belongs to. -/
  transaction : Option String := none
deriving BEq, Inhabited

/-- Update columns of a row. -/
structure UpdateRow where
  /-- Table name. -/
  table : String
  /-- Key of the row. -/
  key : Key
  /-- What changes. -/
  updates : UpdateSet := {}
  /-- What the write expects. -/
  condition : Condition := {}
  /-- What the write returns. -/
  returnType : ReturnType := .none
  /-- Columns returned of the row after the write; none means all. -/
  returnColumns : List String := []
  /-- Transaction that the write belongs to. -/
  transaction : Option String := none
deriving BEq, Inhabited

/-- Delete a row. -/
structure DeleteRow where
  /-- Table name. -/
  table : String
  /-- Key of the row. -/
  key : Key
  /-- What the write expects. -/
  condition : Condition := {}
  /-- What the write returns. -/
  returnType : ReturnType := .none
  /-- Transaction that the write belongs to. -/
  transaction : Option String := none
deriving BEq, Inhabited

/-! ### Several rows -/

/-- Scan one page of a range of keys. -/
structure GetRange where
  /-- Table name. -/
  table : String
  /-- Direction of the scan. -/
  direction : Direction := .forward
  /-- Columns to return; none means all. -/
  columns : List String := []
  /-- Versions to return per column. -/
  maxVersions : Option Int64 := none
  /-- Versions to consider. -/
  timeRange : Option TimeRange := none
  /-- Most rows of an answer. -/
  limit : Option Int64 := none
  /-- Key at which the scan starts. -/
  start : Key := []
  /-- Key before which the scan ends. -/
  stop : Key
  /-- What a row has to satisfy. -/
  filter : Option Filter := none
  /-- First column returned. -/
  startColumn : Option String := none
  /-- Column before which rows are cut. -/
  endColumn : Option String := none
  /-- Continuation of an earlier scan. -/
  token : Option Bytes := none
  /-- Transaction that the scan belongs to. -/
  transaction : Option String := none
deriving BEq, Inhabited

/-- Rows to read from one table. -/
structure RowsQuery where
  /-- Table name. -/
  table : String
  /-- Keys of the rows. -/
  keys : List Key
  /-- Columns to return; none means all. -/
  columns : List String := []
  /-- Versions to return per column. -/
  maxVersions : Option Int64 := none
  /-- Versions to consider. -/
  timeRange : Option TimeRange := none
  /-- What a row has to satisfy. -/
  filter : Option Filter := none
  /-- First column returned. -/
  startColumn : Option String := none
  /-- Column before which rows are cut. -/
  endColumn : Option String := none
deriving BEq, Inhabited

/-- Read rows of several tables. -/
structure BatchGet where
  /-- What to read. -/
  tables : List RowsQuery
deriving BEq, Inhabited

/-- One row of a batch write. -/
structure RowWrite where
  /-- What the write does. -/
  kind : WriteKind
  /-- Key of the row. -/
  key : Key
  /-- Cells of a put. -/
  cells : List Cell := []
  /-- Changes of an update. -/
  updates : UpdateSet := {}
  /-- What the write expects. -/
  condition : Condition := {}
  /-- What the write returns. -/
  returnType : ReturnType := .none
  /-- Columns returned of the row after the write; none means all. -/
  returnColumns : List String := []
deriving BEq, Inhabited

/-- The rows of a batch write that go to one table. -/
structure TableWrites where
  /-- Table name. -/
  table : String
  /-- The rows in order. -/
  rows : List RowWrite
deriving BEq, Inhabited

/-- Write rows of several tables. -/
structure BatchWrite where
  /-- What to write. -/
  tables : List TableWrites := []
  /-- Transaction that the write belongs to. -/
  transaction : Option String := none
  /-- Whether either all rows are written or none. -/
  isAtomic : Option Bool := none
deriving BEq, Inhabited

/-- Search through an index. -/
structure Search where
  /-- Table name. -/
  table : String
  /-- Index name. -/
  index : String
  /-- What to look for. -/
  query : Json := .null
  /-- Columns to return; none means only the key. -/
  columns : List String := []
  /-- Keys of the partitions to search. -/
  routing : List Key := []
  /-- Most milliseconds to spend. -/
  timeout : Option Int64 := none
deriving BEq, Inhabited

/-! ### Transactions -/

/-- Open a transaction on a table. -/
structure StartTransaction where
  /-- Table name. -/
  table : String
  /-- Partition key. -/
  key : KeyColumn
deriving DecidableEq, Inhabited

/-- Commit a transaction. -/
structure CommitTransaction where
  /-- The transaction. -/
  transaction : String
deriving DecidableEq, Inhabited

/-- Abort a transaction. -/
structure AbortTransaction where
  /-- The transaction. -/
  transaction : String
deriving DecidableEq, Inhabited

/-! ### All requests -/

/-- A request, range scans apart. -/
inductive Request where
  /-- Create a table. -/
  | createTable (r : CreateTable)
  /-- Delete a table. -/
  | deleteTable (r : DeleteTable)
  /-- List the tables. -/
  | listTables (r : ListTables)
  /-- Change the settings of a table. -/
  | updateTable (r : UpdateTable)
  /-- Describe a table. -/
  | describeTable (r : DescribeTable)
  /-- Read a row. -/
  | getRow (r : GetRow)
  /-- Put a row. -/
  | putRow (r : PutRow)
  /-- Update a row. -/
  | updateRow (r : UpdateRow)
  /-- Delete a row. -/
  | deleteRow (r : DeleteRow)
  /-- Read rows of several tables. -/
  | batchGet (r : BatchGet)
  /-- Write rows of several tables. -/
  | batchWrite (r : BatchWrite)
  /-- Search through an index. -/
  | search (r : Search)
  /-- Open a transaction. -/
  | startTransaction (r : StartTransaction)
  /-- Commit a transaction. -/
  | commitTransaction (r : CommitTransaction)
  /-- Abort a transaction. -/
  | abortTransaction (r : AbortTransaction)
deriving BEq, Inhabited

namespace Request

/-- The operation that a request asks for. -/
def operation : Request → Operation
  | createTable _ => .createTable
  | deleteTable _ => .deleteTable
  | listTables _ => .listTable
  | updateTable _ => .updateTable
  | describeTable _ => .describeTable
  | getRow _ => .getRow
  | putRow _ => .putRow
  | updateRow _ => .updateRow
  | deleteRow _ => .deleteRow
  | batchGet _ => .batchGetRow
  | batchWrite _ => .batchWriteRow
  | search _ => .search
  | startTransaction _ => .startTransaction
  | commitTransaction _ => .commitTransaction
  | abortTransaction _ => .abortTransaction

/-- The table of a request, if it concerns exactly one by name. -/
def table? : Request → Option String
  | createTable r => some r.table
  | deleteTable r => some r.table
  | updateTable r => some r.table
  | describeTable r => some r.table
  | getRow r => some r.table
  | putRow r => some r.table
  | updateRow r => some r.table
  | deleteRow r => some r.table
  | search r => some r.table
  | startTransaction r => some r.table
  | listTables _ | batchGet _ | batchWrite _ | commitTransaction _ | abortTransaction _ => none

end Request

end WideColumn
