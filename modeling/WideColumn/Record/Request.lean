import WideColumn.Record.Schema
import WideColumn.Request

/-!
# Records of requests

How each request is written and read. What was not set is left out and may be missing; the fields
of which every request of a kind has a value are always written.
-/

namespace WideColumn

/-! ### Tables -/

instance : Wire CreateTable where
  encode r := .object (field "TableName" r.table ++ field "PrimaryKeys" r.keys ++
    listField "DefinedColumns" r.columns ++ listField "IndexMetas" r.indexes ++
    field "ReservedThroughput" r.reserved ++ field "TableOptions" r.options ++
    optionalField "StreamSpec" r.stream)
  decode := (CreateTable.mk <$> .required "TableName" <*> .required "PrimaryKeys" <*>
    .orElse "DefinedColumns" [] <*> .orElse "IndexMetas" [] <*>
    .required "ReservedThroughput" <*> .required "TableOptions" <*> .optional "StreamSpec" :
    Fields CreateTable).decode

instance : Wire DeleteTable where
  encode r := .object (field "TableName" r.table)
  decode := (DeleteTable.mk <$> .required "TableName" : Fields DeleteTable).decode

instance : Wire DescribeTable where
  encode r := .object (field "TableName" r.table)
  decode := (DescribeTable.mk <$> .required "TableName" : Fields DescribeTable).decode

instance : Wire ListTables where
  encode _ := .object []
  decode := (pure {} : Fields ListTables).decode

instance : Wire UpdateTable where
  encode r := .object (field "TableName" r.table ++
    optionalField "ReservedThroughputRead" r.reservedRead ++
    optionalField "ReservedThroughputWrite" r.reservedWrite ++
    field "TableOptions" r.options ++ optionalField "StreamSpec" r.stream)
  decode := (UpdateTable.mk <$> .required "TableName" <*> .optional "ReservedThroughputRead" <*>
    .optional "ReservedThroughputWrite" <*> .required "TableOptions" <*>
    .optional "StreamSpec" : Fields UpdateTable).decode

/-! ### Single rows -/

instance : Wire GetRow where
  encode r := .object (field "TableName" r.table ++ field "PrimaryKey" r.key ++
    listField "ColumnsToGet" r.columns ++ optionalField "MaxVersions" r.maxVersions ++
    optionalField "TimeRange" r.timeRange ++ optionalField "Filter" r.filter ++
    optionalField "StartColumn" r.startColumn ++ optionalField "EndColumn" r.endColumn ++
    optionalField "TransactionId" r.transaction)
  decode := (GetRow.mk <$> .required "TableName" <*> .required "PrimaryKey" <*>
    .orElse "ColumnsToGet" [] <*> .optional "MaxVersions" <*> .optional "TimeRange" <*>
    .optional "Filter" <*> .optional "StartColumn" <*> .optional "EndColumn" <*>
    .optional "TransactionId" : Fields GetRow).decode

instance : Wire PutRow where
  encode r := .object (field "TableName" r.table ++ field "PrimaryKey" r.key ++
    field "AttributeColumns" r.cells ++ field "Condition" r.condition ++
    field "ReturnType" r.returnType ++ optionalField "TransactionId" r.transaction)
  decode := (PutRow.mk <$> .required "TableName" <*> .required "PrimaryKey" <*>
    .orElse "AttributeColumns" [] <*> .required "Condition" <*> .required "ReturnType" <*>
    .optional "TransactionId" : Fields PutRow).decode

instance : Wire UpdateRow where
  encode r := .object (field "TableName" r.table ++ field "PrimaryKey" r.key ++
    field "Updates" r.updates ++ field "Condition" r.condition ++
    field "ReturnType" r.returnType ++ listField "ReturnColumns" r.returnColumns ++
    optionalField "TransactionId" r.transaction)
  decode := (UpdateRow.mk <$> .required "TableName" <*> .required "PrimaryKey" <*>
    .orElse "Updates" {} <*> .required "Condition" <*> .required "ReturnType" <*>
    .orElse "ReturnColumns" [] <*> .optional "TransactionId" : Fields UpdateRow).decode

instance : Wire DeleteRow where
  encode r := .object (field "TableName" r.table ++ field "PrimaryKey" r.key ++
    field "Condition" r.condition ++ field "ReturnType" r.returnType ++
    optionalField "TransactionId" r.transaction)
  decode := (DeleteRow.mk <$> .required "TableName" <*> .required "PrimaryKey" <*>
    .required "Condition" <*> .required "ReturnType" <*> .optional "TransactionId" :
    Fields DeleteRow).decode

/-! ### Several rows -/

instance : Wire GetRange where
  encode r := .object (field "TableName" r.table ++ field "Direction" r.direction ++
    listField "ColumnsToGet" r.columns ++ optionalField "MaxVersions" r.maxVersions ++
    optionalField "TimeRange" r.timeRange ++ optionalField "Limit" r.limit ++
    field "InclusiveStartPrimaryKey" r.start ++ field "ExclusiveEndPrimaryKey" r.stop ++
    optionalField "Filter" r.filter ++ optionalField "StartColumn" r.startColumn ++
    optionalField "EndColumn" r.endColumn ++ optionalField "Token" r.token ++
    optionalField "TransactionId" r.transaction)
  decode := (GetRange.mk <$> .required "TableName" <*> .required "Direction" <*>
    .orElse "ColumnsToGet" [] <*> .optional "MaxVersions" <*> .optional "TimeRange" <*>
    .optional "Limit" <*> .orElse "InclusiveStartPrimaryKey" [] <*>
    .required "ExclusiveEndPrimaryKey" <*> .optional "Filter" <*> .optional "StartColumn" <*>
    .optional "EndColumn" <*> .optional "Token" <*> .optional "TransactionId" :
    Fields GetRange).decode

instance : Wire RowsQuery where
  encode r := .object (field "TableName" r.table ++ field "PrimaryKeys" r.keys ++
    listField "ColumnsToGet" r.columns ++ optionalField "MaxVersions" r.maxVersions ++
    optionalField "TimeRange" r.timeRange ++ optionalField "Filter" r.filter ++
    optionalField "StartColumn" r.startColumn ++ optionalField "EndColumn" r.endColumn)
  decode := (RowsQuery.mk <$> .required "TableName" <*> .required "PrimaryKeys" <*>
    .orElse "ColumnsToGet" [] <*> .optional "MaxVersions" <*> .optional "TimeRange" <*>
    .optional "Filter" <*> .optional "StartColumn" <*> .optional "EndColumn" :
    Fields RowsQuery).decode

instance : Wire BatchGet where
  encode r := .object (field "Tables" r.tables)
  decode := (BatchGet.mk <$> .required "Tables" : Fields BatchGet).decode

instance : Wire RowWrite where
  encode r := .object (field "Kind" r.kind ++ field "PrimaryKey" r.key ++
    listField "AttributeColumns" r.cells ++
    (if r.updates.isEmpty then [] else field "Updates" r.updates) ++
    field "Condition" r.condition ++ field "ReturnType" r.returnType ++
    listField "ReturnColumns" r.returnColumns)
  decode := (RowWrite.mk <$> .required "Kind" <*> .required "PrimaryKey" <*>
    .orElse "AttributeColumns" [] <*> .orElse "Updates" {} <*> .required "Condition" <*>
    .required "ReturnType" <*> .orElse "ReturnColumns" [] : Fields RowWrite).decode

instance : Wire TableWrites where
  encode r := .object (field "TableName" r.table ++ field "Rows" r.rows)
  decode := (TableWrites.mk <$> .required "TableName" <*> .required "Rows" :
    Fields TableWrites).decode

instance : Wire BatchWrite where
  encode r := .object (field "Tables" r.tables ++ optionalField "TransactionId" r.transaction ++
    optionalField "IsAtomic" r.isAtomic)
  decode := (BatchWrite.mk <$> .required "Tables" <*> .optional "TransactionId" <*>
    .optional "IsAtomic" : Fields BatchWrite).decode

instance : Wire Search where
  encode r := .object (field "TableName" r.table ++ field "IndexName" r.index ++
    field "SearchQuery" r.query ++ listField "ColumnsToGet" r.columns ++
    listField "RoutingValues" r.routing ++ optionalField "TimeoutMs" r.timeout)
  decode := (Search.mk <$> .required "TableName" <*> .required "IndexName" <*>
    .required "SearchQuery" <*> .orElse "ColumnsToGet" [] <*> .orElse "RoutingValues" [] <*>
    .optional "TimeoutMs" : Fields Search).decode

/-! ### Transactions -/

instance : Wire StartTransaction where
  encode r := .object (field "TableName" r.table ++ field "Key" r.key)
  decode := (StartTransaction.mk <$> .required "TableName" <*> .required "Key" :
    Fields StartTransaction).decode

instance : Wire CommitTransaction where
  encode r := .object (field "TransactionId" r.transaction)
  decode := (CommitTransaction.mk <$> .required "TransactionId" : Fields CommitTransaction).decode

instance : Wire AbortTransaction where
  encode r := .object (field "TransactionId" r.transaction)
  decode := (AbortTransaction.mk <$> .required "TransactionId" : Fields AbortTransaction).decode

/-- Write a request. -/
def Request.toJson : Request → Json
  | createTable r => encode r
  | deleteTable r => encode r
  | listTables r => encode r
  | updateTable r => encode r
  | describeTable r => encode r
  | getRow r => encode r
  | putRow r => encode r
  | updateRow r => encode r
  | deleteRow r => encode r
  | batchGet r => encode r
  | batchWrite r => encode r
  | search r => encode r
  | startTransaction r => encode r
  | commitTransaction r => encode r
  | abortTransaction r => encode r

end WideColumn
