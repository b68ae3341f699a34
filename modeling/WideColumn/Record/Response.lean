import WideColumn.Record.Schema
import WideColumn.Response

/-!
# Records of responses

How each response is written and read. Counts and lists of rows are always written, but a reader
does without them.
-/

namespace WideColumn

instance : Wire TableCreated where
  encode _ := .object []
  decode := (pure {} : Fields TableCreated).decode

instance : Wire TableDeleted where
  encode _ := .object []
  decode := (pure {} : Fields TableDeleted).decode

instance : Wire TableList where
  encode r := .object (field "TableNames" r.names)
  decode := (TableList.mk <$> .orElse "TableNames" [] : Fields TableList).decode

instance : Wire TableUpdated where
  encode r := .object (optionalField "TableMeta" r.tableMeta)
  decode := (TableUpdated.mk <$> .optional "TableMeta" : Fields TableUpdated).decode

instance : Wire TableDescription where
  encode r := .object (field "TableMeta" r.tableMeta)
  decode := (TableDescription.mk <$> .required "TableMeta" : Fields TableDescription).decode

instance : Wire RowRead where
  encode r := .object (optionalField "Row" r.row ++ field "Consumed" r.consumed)
  decode := (RowRead.mk <$> .optional "Row" <*> .orElse "Consumed" {} : Fields RowRead).decode

instance : Wire RowWritten where
  encode r := .object (optionalField "Row" r.row ++ field "Consumed" r.consumed)
  decode := (RowWritten.mk <$> .optional "Row" <*> .orElse "Consumed" {} :
    Fields RowWritten).decode

instance : Wire RangePage where
  encode r := .object (field "Rows" r.rows ++ optionalField "NextStartPrimaryKey" r.nextStart ++
    optionalField "NextToken" r.nextToken ++ field "Consumed" r.consumed)
  decode := (RangePage.mk <$> .orElse "Rows" [] <*> .optional "NextStartPrimaryKey" <*>
    .optional "NextToken" <*> .orElse "Consumed" {} : Fields RangePage).decode

instance : Wire RowOutcome where
  encode r := .object (field "IsOk" r.isOk ++ optionalField "Row" r.row ++
    optionalField "ErrorCode" r.errorCode ++ optionalField "ErrorMessage" r.errorMessage)
  decode := (RowOutcome.mk <$> .required "IsOk" <*> .optional "Row" <*> .optional "ErrorCode" <*>
    .optional "ErrorMessage" : Fields RowOutcome).decode

instance : Wire TableOutcomes where
  encode r := .object (field "TableName" r.table ++ field "Rows" r.rows)
  decode := (TableOutcomes.mk <$> .required "TableName" <*> .required "Rows" :
    Fields TableOutcomes).decode

instance : Wire BatchRead where
  encode r := .object (field "Tables" r.tables)
  decode := (BatchRead.mk <$> .required "Tables" : Fields BatchRead).decode

instance : Wire BatchWritten where
  encode r := .object (field "Tables" r.tables)
  decode := (BatchWritten.mk <$> .required "Tables" : Fields BatchWritten).decode

instance : Wire SearchHits where
  encode r := .object (field "Rows" r.rows ++ optionalField "TotalHits" r.totalHits ++
    field "IsAllSucceeded" r.isAllSucceeded ++ optionalField "NextToken" r.nextToken)
  decode := (SearchHits.mk <$> .orElse "Rows" [] <*> .optional "TotalHits" <*>
    .orElse "IsAllSucceeded" false <*> .optional "NextToken" : Fields SearchHits).decode

instance : Wire TransactionStarted where
  encode r := .object (field "TransactionId" r.transaction)
  decode := (TransactionStarted.mk <$> .required "TransactionId" : Fields TransactionStarted).decode

instance : Wire TransactionCommitted where
  encode _ := .object []
  decode := (pure {} : Fields TransactionCommitted).decode

instance : Wire TransactionAborted where
  encode _ := .object []
  decode := (pure {} : Fields TransactionAborted).decode

namespace Response

/-- Write an answer. -/
def toJson : Response → Json
  | tableCreated r => encode r
  | tableDeleted r => encode r
  | tableList r => encode r
  | tableUpdated r => encode r
  | tableDescription r => encode r
  | rowRead r => encode r
  | rowWritten r => encode r
  | batchRead r => encode r
  | batchWritten r => encode r
  | rangePage r => encode r
  | searchHits r => encode r
  | transactionStarted r => encode r
  | transactionCommitted r => encode r
  | transactionAborted r => encode r

/-- Read an answer of a named kind. -/
def ofJson (kind : String) (j : Json) : Except DecodeFault Response :=
  match kind with
  | "CreateTable" => (decode j).map tableCreated
  | "DeleteTable" => (decode j).map tableDeleted
  | "ListTable" => (decode j).map tableList
  | "UpdateTable" => (decode j).map tableUpdated
  | "DescribeTable" => (decode j).map tableDescription
  | "GetRow" => (decode j).map rowRead
  | "WriteRow" => (decode j).map rowWritten
  | "BatchGetRow" => (decode j).map batchRead
  | "BatchWriteRow" => (decode j).map batchWritten
  | "GetRange" => (decode j).map rangePage
  | "Search" => (decode j).map searchHits
  | "StartLocalTransaction" => (decode j).map transactionStarted
  | "CommitTransaction" => (decode j).map transactionCommitted
  | "AbortTransaction" => (decode j).map transactionAborted
  | _ => .error .mismatch

end Response

end WideColumn
