import WideColumn.Record.Row

/-!
# Records of tables and their settings

Settings that are not set have no field, and a field that is missing is a setting not set. Of a
table only the name has to be there.
-/

namespace WideColumn

instance : Wire UpdateKind := .ofEnumeration _
instance : Wire KeyType := .ofEnumeration _
instance : Wire ColumnType := .ofEnumeration _
instance : Wire IndexKind := .ofEnumeration _

instance : Wire KeySchema where
  encode s := .object (field "Name" s.name ++ field "KeyType" s.type ++
    field "AutoIncrement" s.autoIncrement)
  decode := (KeySchema.mk <$> .required "Name" <*> .required "KeyType" <*>
    .orElse "AutoIncrement" false : Fields KeySchema).decode

instance : Wire ColumnSchema where
  encode s := .object (field "Name" s.name ++ field "ColumnType" s.type)
  decode := (ColumnSchema.mk <$> .required "Name" <*> .required "ColumnType" :
    Fields ColumnSchema).decode

instance : Wire IndexMeta where
  encode m := .object (field "Name" m.name ++ field "PrimaryKey" m.keyColumns ++
    listField "DefinedColumn" m.columns ++ field "IndexType" m.kind)
  decode := (IndexMeta.mk <$> .required "Name" <*> .required "PrimaryKey" <*>
    .orElse "DefinedColumn" [] <*> .orElse "IndexType" .global : Fields IndexMeta).decode

instance : Wire Capacity where
  encode c := .object (field "Read" c.read ++ field "Write" c.write)
  decode := (Capacity.mk <$> .required "Read" <*> .required "Write" : Fields Capacity).decode

instance : Wire TableOptions where
  encode o := .object (optionalField "TimeToLive" o.timeToLive ++
    optionalField "MaxVersions" o.maxVersions ++
    optionalField "DeviationCellVersionInSec" o.deviation ++
    optionalField "AllowUpdate" o.allowUpdate)
  decode := (TableOptions.mk <$> .optional "TimeToLive" <*> .optional "MaxVersions" <*>
    .optional "DeviationCellVersionInSec" <*> .optional "AllowUpdate" : Fields TableOptions).decode

instance : Wire StreamSpec where
  encode s := .object (field "IsEnabled" s.isEnabled ++
    optionalField "ExpirationTime" s.expirationTime)
  decode := (StreamSpec.mk <$> .required "IsEnabled" <*> .optional "ExpirationTime" :
    Fields StreamSpec).decode

instance : Wire TimeRange where
  encode r := .object (optionalField "StartTime" r.from? ++ optionalField "EndTime" r.to? ++
    optionalField "SpecificTime" r.at?)
  decode := (TimeRange.mk <$> .optional "StartTime" <*> .optional "EndTime" <*>
    .optional "SpecificTime" : Fields TimeRange).decode

instance : Wire TableMeta where
  encode m := .object (field "TableName" m.name ++ field "PrimaryKey" m.key ++
    listField "DefinedColumns" m.columns ++ listField "IndexMetas" m.indexes ++
    field "TableOptions" m.options ++ field "ReservedThroughput" m.reserved ++
    optionalField "StreamSpec" m.stream ++ listField "ShardSplits" m.splits)
  decode := (TableMeta.mk <$> .required "TableName" <*> .orElse "PrimaryKey" [] <*>
    .orElse "DefinedColumns" [] <*> .orElse "IndexMetas" [] <*> .orElse "TableOptions" {} <*>
    .orElse "ReservedThroughput" {} <*> .optional "StreamSpec" <*> .orElse "ShardSplits" [] :
    Fields TableMeta).decode

end WideColumn
