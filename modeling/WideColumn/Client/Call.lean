import WideColumn.Options.Assemble
import WideColumn.Response

/-!
# Calls

A call is the request that it makes, or the reason why there is none, together with the kind of
answer that it takes. Options are read when the request is made, so that options which do not fit
are found out before anything is sent.
-/

namespace WideColumn

/-- A call with answers of type `α`. -/
structure Call (α : Type) where
  /-- The request. -/
  request : Except Error Request
  /-- The answer in a response of the kind that the call takes. -/
  answer? : Response → Option α

namespace Call

/-! ### Tables -/

/-- Create a table. -/
def createTable (table : String) (keys : List KeySchema) (options : OptionList) :
    Call TableCreated :=
  ⟨(merge { table, keys } options).map .createTable, Response.tableCreated?⟩

/-- Delete a table. -/
def deleteTable (table : String) : Call TableDeleted :=
  ⟨.ok (.deleteTable { table }), Response.tableDeleted?⟩

/-- List the tables. -/
def listTables : Call TableList := ⟨.ok (.listTables {}), Response.tableList?⟩

/-- Change the settings of a table. -/
def updateTable (table : String) (options : OptionList) : Call TableUpdated :=
  ⟨(merge { table } options).map .updateTable, Response.tableUpdated?⟩

/-- Describe a table. -/
def describeTable (table : String) : Call TableDescription :=
  ⟨.ok (.describeTable { table }), Response.tableDescription?⟩

/-! ### Single rows -/

/-- Read a row. -/
def getRow (table : String) (key : Key) (options : OptionList) : Call RowRead :=
  ⟨(merge { table, key } options).map .getRow, Response.rowRead?⟩

/-- Put a row. -/
def putRow (table : String) (key : Key) (cells : List Cell) (options : OptionList) :
    Call RowWritten :=
  ⟨(merge { table, key, cells } options).map .putRow, Response.rowWritten?⟩

/-- The update of a row that options describe: what it expects and returns, and its changes. -/
def updateOf (table : String) (key : Key) (options : OptionList) : Except Error UpdateRow := do
  let r ← merge { table, key : UpdateRow } options
  let updates ← UpdateSet.ofOptions options
  return { r with updates }

/-- Update columns of a row. -/
def updateRow (table : String) (key : Key) (options : OptionList) : Call RowWritten :=
  ⟨(updateOf table key options).map .updateRow, Response.rowWritten?⟩

/-- Delete a row. -/
def deleteRow (table : String) (key : Key) (options : OptionList) : Call RowWritten :=
  ⟨(merge { table, key } options).map .deleteRow, Response.rowWritten?⟩

/-! ### Several rows -/

/-- Read rows of several tables. -/
def batchGet (tables : List RowsQuery) : Call BatchRead :=
  ⟨.ok (.batchGet { tables }), Response.batchRead?⟩

/-- Write rows of several tables. -/
def batchWrite (tables : List TableWrites) (options : OptionList) : Call BatchWritten :=
  ⟨(merge { tables } options).map .batchWrite, Response.batchWritten?⟩

/-- Search a table through an index. -/
def search (table index : String) (options : OptionList) : Call SearchHits :=
  ⟨(merge { table, index } options).map .search, Response.searchHits?⟩

/-! ### Transactions -/

/-- Open a transaction on a table. -/
def startTransaction (table : String) (key : KeyColumn) : Call TransactionStarted :=
  ⟨.ok (.startTransaction { table, key }), Response.transactionStarted?⟩

/-- Commit a transaction. -/
def commitTransaction (transaction : String) : Call TransactionCommitted :=
  ⟨.ok (.commitTransaction { transaction }), Response.transactionCommitted?⟩

/-- Abort a transaction. -/
def abortTransaction (transaction : String) : Call TransactionAborted :=
  ⟨.ok (.abortTransaction { transaction }), Response.transactionAborted?⟩

end Call

end WideColumn
