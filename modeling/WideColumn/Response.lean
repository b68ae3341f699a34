import WideColumn.Schema

/-!
# Responses

One record for each kind of answer.
-/

namespace WideColumn

/-- A table was created. -/
structure TableCreated where
deriving DecidableEq, Inhabited

/-- A table was deleted. -/
structure TableDeleted where
deriving DecidableEq, Inhabited

/-- The tables of an instance. -/
structure TableList where
  /-- Table names. -/
  names : List String := []
deriving DecidableEq, Inhabited

/-- A table was updated. -/
structure TableUpdated where
  /-- The table after the update. -/
  tableMeta : Option TableMeta := none
deriving DecidableEq, Inhabited

/-- A description of a table. -/
structure TableDescription where
  /-- The table. -/
  tableMeta : TableMeta
deriving DecidableEq, Inhabited

/-- The answer to reading a row. -/
structure RowRead where
  /-- The row, if there is one that passes. -/
  row : Option Row := none
  /-- Capacity consumed. -/
  consumed : Capacity := {}
deriving BEq, Inhabited

/-- The answer to writing a row. -/
structure RowWritten where
  /-- What the write returns of the row. -/
  row : Option Row := none
  /-- Capacity consumed. -/
  consumed : Capacity := {}
deriving BEq, Inhabited

/-- A page of a range scan. -/
structure RangePage where
  /-- The rows of the page. -/
  rows : List Row := []
  /-- Key at which the next page starts. -/
  nextStart : Option Key := none
  /-- The same as a token. -/
  nextToken : Option Bytes := none
  /-- Capacity consumed. -/
  consumed : Capacity := {}
deriving BEq, Inhabited

/-- What became of one row of a batch. -/
structure RowOutcome where
  /-- Whether it went well. -/
  isOk : Bool := false
  /-- The row read or returned. -/
  row : Option Row := none
  /-- Code of the refusal. -/
  errorCode : Option String := none
  /-- The refusal in words. -/
  errorMessage : Option String := none
deriving BEq, Inhabited

/-- What became of the rows of one table of a batch, in request order. -/
structure TableOutcomes where
  /-- Table name. -/
  table : String
  /-- The rows. -/
  rows : List RowOutcome
deriving BEq, Inhabited

/-- The answer to a batch read. -/
structure BatchRead where
  /-- The tables in request order. -/
  tables : List TableOutcomes
deriving BEq, Inhabited

/-- The answer to a batch write. -/
structure BatchWritten where
  /-- The tables in request order. -/
  tables : List TableOutcomes
deriving BEq, Inhabited

/-- The answer to a search. -/
structure SearchHits where
  /-- The rows found. -/
  rows : List Row := []
  /-- How many there are. -/
  totalHits : Option Int64 := none
  /-- Whether every partition answered. -/
  isAllSucceeded : Bool := false
  /-- Continuation of the search. -/
  nextToken : Option Bytes := none
deriving BEq, Inhabited

/-- A transaction was opened. -/
structure TransactionStarted where
  /-- The transaction. -/
  transaction : String
deriving DecidableEq, Inhabited

/-- A transaction was committed. -/
structure TransactionCommitted where
deriving DecidableEq, Inhabited

/-- A transaction was aborted. -/
structure TransactionAborted where
deriving DecidableEq, Inhabited

/-- An answer. -/
inductive Response where
  /-- A table was created. -/
  | tableCreated (r : TableCreated)
  /-- A table was deleted. -/
  | tableDeleted (r : TableDeleted)
  /-- The tables of an instance. -/
  | tableList (r : TableList)
  /-- A table was updated. -/
  | tableUpdated (r : TableUpdated)
  /-- A description of a table. -/
  | tableDescription (r : TableDescription)
  /-- The answer to reading a row. -/
  | rowRead (r : RowRead)
  /-- The answer to writing a row. -/
  | rowWritten (r : RowWritten)
  /-- The answer to a batch read. -/
  | batchRead (r : BatchRead)
  /-- The answer to a batch write. -/
  | batchWritten (r : BatchWritten)
  /-- A page of a range scan. -/
  | rangePage (r : RangePage)
  /-- The answer to a search. -/
  | searchHits (r : SearchHits)
  /-- A transaction was opened. -/
  | transactionStarted (r : TransactionStarted)
  /-- A transaction was committed. -/
  | transactionCommitted (r : TransactionCommitted)
  /-- A transaction was aborted. -/
  | transactionAborted (r : TransactionAborted)
deriving BEq, Inhabited

namespace Response

/-- The name of the kind of an answer. -/
def kind : Response → String
  | tableCreated _ => "CreateTable"
  | tableDeleted _ => "DeleteTable"
  | tableList _ => "ListTable"
  | tableUpdated _ => "UpdateTable"
  | tableDescription _ => "DescribeTable"
  | rowRead _ => "GetRow"
  | rowWritten _ => "WriteRow"
  | batchRead _ => "BatchGetRow"
  | batchWritten _ => "BatchWriteRow"
  | rangePage _ => "GetRange"
  | searchHits _ => "Search"
  | transactionStarted _ => "StartLocalTransaction"
  | transactionCommitted _ => "CommitTransaction"
  | transactionAborted _ => "AbortTransaction"

/-! ### Answers of one kind -/

/-- The answer that a table was created, if it is one. -/
def tableCreated? : Response → Option TableCreated
  | tableCreated r => some r
  | _ => none

/-- The answer that a table was deleted, if it is one. -/
def tableDeleted? : Response → Option TableDeleted
  | tableDeleted r => some r
  | _ => none

/-- The answer with the tables of an instance, if it is one. -/
def tableList? : Response → Option TableList
  | tableList r => some r
  | _ => none

/-- The answer that a table was updated, if it is one. -/
def tableUpdated? : Response → Option TableUpdated
  | tableUpdated r => some r
  | _ => none

/-- The answer with the description of a table, if it is one. -/
def tableDescription? : Response → Option TableDescription
  | tableDescription r => some r
  | _ => none

/-- The answer to reading a row, if it is one. -/
def rowRead? : Response → Option RowRead
  | rowRead r => some r
  | _ => none

/-- The answer to writing a row, if it is one. -/
def rowWritten? : Response → Option RowWritten
  | rowWritten r => some r
  | _ => none

/-- The answer to a batch read, if it is one. -/
def batchRead? : Response → Option BatchRead
  | batchRead r => some r
  | _ => none

/-- The answer to a batch write, if it is one. -/
def batchWritten? : Response → Option BatchWritten
  | batchWritten r => some r
  | _ => none

/-- The answer with a page of a scan, if it is one. -/
def rangePage? : Response → Option RangePage
  | rangePage r => some r
  | _ => none

/-- The answer to a search, if it is one. -/
def searchHits? : Response → Option SearchHits
  | searchHits r => some r
  | _ => none

/-- The answer that a transaction was opened, if it is one. -/
def transactionStarted? : Response → Option TransactionStarted
  | transactionStarted r => some r
  | _ => none

/-- The answer that a transaction was committed, if it is one. -/
def transactionCommitted? : Response → Option TransactionCommitted
  | transactionCommitted r => some r
  | _ => none

/-- The answer that a transaction was aborted, if it is one. -/
def transactionAborted? : Response → Option TransactionAborted
  | transactionAborted r => some r
  | _ => none

end Response

end WideColumn
