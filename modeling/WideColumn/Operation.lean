import WideColumn.Enumeration

/-!
# Operations

The operations of the service by name.
-/

namespace WideColumn

/-- An operation of the service. -/
inductive Operation where
  /-- Create a table. -/
  | createTable
  /-- Delete a table. -/
  | deleteTable
  /-- List the tables. -/
  | listTable
  /-- Change the settings of a table. -/
  | updateTable
  /-- Describe a table. -/
  | describeTable
  /-- Read a row. -/
  | getRow
  /-- Put a row. -/
  | putRow
  /-- Update a row. -/
  | updateRow
  /-- Delete a row. -/
  | deleteRow
  /-- Read rows of several tables. -/
  | batchGetRow
  /-- Write rows of several tables. -/
  | batchWriteRow
  /-- Scan a range of a table. -/
  | getRange
  /-- Search through an index. -/
  | search
  /-- Open a transaction. -/
  | startTransaction
  /-- Commit a transaction. -/
  | commitTransaction
  /-- Abort a transaction. -/
  | abortTransaction
deriving DecidableEq, Inhabited

instance : Enumeration Operation where
  members := [.createTable, .deleteTable, .listTable, .updateTable, .describeTable, .getRow,
    .putRow, .updateRow, .deleteRow, .batchGetRow, .batchWriteRow, .getRange, .search,
    .startTransaction, .commitTransaction, .abortTransaction]
  name
    | .createTable => "CreateTable"
    | .deleteTable => "DeleteTable"
    | .listTable => "ListTable"
    | .updateTable => "UpdateTable"
    | .describeTable => "DescribeTable"
    | .getRow => "GetRow"
    | .putRow => "PutRow"
    | .updateRow => "UpdateRow"
    | .deleteRow => "DeleteRow"
    | .batchGetRow => "BatchGetRow"
    | .batchWriteRow => "BatchWriteRow"
    | .getRange => "GetRange"
    | .search => "Search"
    | .startTransaction => "StartLocalTransaction"
    | .commitTransaction => "CommitTransaction"
    | .abortTransaction => "AbortTransaction"

/-- The name of an operation. -/
def Operation.name (op : Operation) : String := Enumeration.name op

end WideColumn
