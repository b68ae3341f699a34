import WideColumn.Enumeration
import WideColumn.Value

/-!
# Tables and their settings

What a table declares (key columns, defined columns, indexes) and what can be set for it
(throughput, retention, change stream), together with the enumerations that requests share.
-/

namespace WideColumn

/-! ### Enumerations -/

/-- What a write expects of the row before it. -/
inductive RowExistence where
  /-- Nothing. -/
  | ignore
  /-- That the row is there. -/
  | expectExist
  /-- That the row is not there. -/
  | expectNotExist
deriving DecidableEq, Inhabited

instance : Enumeration RowExistence where
  members := [.ignore, .expectExist, .expectNotExist]
  name
    | .ignore => "IGNORE"
    | .expectExist => "EXPECT_EXIST"
    | .expectNotExist => "EXPECT_NOT_EXIST"
  symbol
    | .ignore => "ignore"
    | .expectExist => "expect_exist"
    | .expectNotExist => "expect_not_exist"

/-- What a write returns of the row. -/
inductive ReturnType where
  /-- Nothing. -/
  | none
  /-- The primary key. -/
  | key
  /-- The row after the write. -/
  | afterModify
deriving DecidableEq, Inhabited

instance : Enumeration ReturnType where
  members := [.none, .key, .afterModify]
  name
    | .none => "RT_NONE"
    | .key => "RT_PK"
    | .afterModify => "RT_AFTER_MODIFY"
  symbol
    | .none => "none"
    | .key => "pk"
    | .afterModify => "after_modify"

/-- The direction of a range scan. -/
inductive Direction where
  /-- By increasing key. -/
  | forward
  /-- By decreasing key. -/
  | backward
deriving DecidableEq, Inhabited

instance : Enumeration Direction where
  members := [.forward, .backward]
  name
    | .forward => "FORWARD"
    | .backward => "BACKWARD"
  symbol
    | .forward => "forward"
    | .backward => "backward"

/-- How a column is compared with a value. -/
inductive Comparator where
  /-- The column equals the value. -/
  | equal
  /-- The column differs from the value. -/
  | notEqual
  /-- The column is greater than the value. -/
  | greater
  /-- The column is greater than or equal to the value. -/
  | greaterEqual
  /-- The column is less than the value. -/
  | less
  /-- The column is less than or equal to the value. -/
  | lessEqual
deriving DecidableEq, Inhabited

instance : Enumeration Comparator where
  members := [.equal, .notEqual, .greater, .greaterEqual, .less, .lessEqual]
  name
    | .equal => "EQUAL"
    | .notEqual => "NOT_EQUAL"
    | .greater => "GREATER_THAN"
    | .greaterEqual => "GREATER_EQUAL"
    | .less => "LESS_THAN"
    | .lessEqual => "LESS_EQUAL"
  symbol
    | .equal => "=="
    | .notEqual => "!="
    | .greater => ">"
    | .greaterEqual => ">="
    | .less => "<"
    | .lessEqual => "<="

/-- How filters are combined. -/
inductive Connective where
  /-- All have to hold. -/
  | and
  /-- One has to hold. -/
  | or
  /-- Not all may hold. -/
  | not
deriving DecidableEq, Inhabited

instance : Enumeration Connective where
  members := [.and, .or, .not]
  name
    | .and => "AND"
    | .or => "OR"
    | .not => "NOT"

/-- What an update does to a column. -/
inductive UpdateKind where
  /-- Write a cell. -/
  | put
  /-- Delete one version. -/
  | delete
  /-- Delete all versions. -/
  | deleteAll
  /-- Add to an integer. -/
  | increment
deriving DecidableEq, Inhabited

instance : Enumeration UpdateKind where
  members := [.put, .delete, .deleteAll, .increment]
  name
    | .put => "PUT"
    | .delete => "DELETE_ONE_VERSION"
    | .deleteAll => "DELETE_ALL_VERSION"
    | .increment => "INCREMENT"
  symbol
    | .put => "put"
    | .delete => "delete"
    | .deleteAll => "delete_all"
    | .increment => "increment"

/-- What a row of a batch write does. -/
inductive WriteKind where
  /-- Put a whole row. -/
  | put
  /-- Update columns of a row. -/
  | update
  /-- Delete a row. -/
  | delete
deriving DecidableEq, Inhabited

instance : Enumeration WriteKind where
  members := [.put, .update, .delete]
  name
    | .put => "PUT"
    | .update => "UPDATE"
    | .delete => "DELETE"
  symbol
    | .put => "put"
    | .update => "update"
    | .delete => "delete"

/-- The type of a key column. -/
inductive KeyType where
  /-- Integers. -/
  | integer
  /-- Text. -/
  | string
  /-- Bytes. -/
  | binary
deriving DecidableEq, Inhabited

instance : Enumeration KeyType where
  members := [.integer, .string, .binary]
  name
    | .integer => "INTEGER"
    | .string => "STRING"
    | .binary => "BINARY"

/-- The type of a defined column. -/
inductive ColumnType where
  /-- Integers. -/
  | integer
  /-- Doubles. -/
  | double
  /-- Truth values. -/
  | boolean
  /-- Text. -/
  | string
  /-- Bytes. -/
  | blob
deriving DecidableEq, Inhabited

instance : Enumeration ColumnType where
  members := [.integer, .double, .boolean, .string, .blob]
  name
    | .integer => "DCT_INTEGER"
    | .double => "DCT_DOUBLE"
    | .boolean => "DCT_BOOLEAN"
    | .string => "DCT_STRING"
    | .blob => "DCT_BLOB"

/-- Where an index keeps its entries. -/
inductive IndexKind where
  /-- Apart from the table's partitions. -/
  | global
  /-- Beside the rows. -/
  | localIndex
deriving DecidableEq, Inhabited

instance : Enumeration IndexKind where
  members := [.global, .localIndex]
  name
    | .global => "IT_GLOBAL_INDEX"
    | .localIndex => "IT_LOCAL_INDEX"

/-! ### Records -/

/-- The schema of a key column. -/
structure KeySchema where
  /-- Column name. -/
  name : String
  /-- Type of its values. -/
  type : KeyType
  /-- Whether the store allocates the value. -/
  autoIncrement : Bool := false
deriving DecidableEq, Inhabited

/-- The schema of a defined column. -/
structure ColumnSchema where
  /-- Column name. -/
  name : String
  /-- Type of its values. -/
  type : ColumnType
deriving DecidableEq, Inhabited

/-- A secondary index. -/
structure IndexMeta where
  /-- Index name. -/
  name : String
  /-- Key columns of the index. -/
  keyColumns : List String
  /-- Further columns it covers. -/
  columns : List String := []
  /-- Where its entries live. -/
  kind : IndexKind := .global
deriving DecidableEq, Inhabited

/-- Capacity units, reserved or consumed. -/
structure Capacity where
  /-- Read units. -/
  read : Int64 := 0
  /-- Write units. -/
  write : Int64 := 0
deriving DecidableEq, Inhabited

/-- Retention settings; what is unset is left alone. -/
structure TableOptions where
  /-- Seconds that data is kept, `-1` for ever. -/
  timeToLive : Option Int64 := none
  /-- Versions kept per column. -/
  maxVersions : Option Int64 := none
  /-- Greatest distance of a version from the present, in seconds. -/
  deviation : Option Int64 := none
  /-- Whether rows may be updated. -/
  allowUpdate : Option Bool := none
deriving DecidableEq, Inhabited

/-- The settings of a table created without others. -/
def TableOptions.creation : TableOptions :=
  { timeToLive := some (-1), maxVersions := some 1, deviation := some 86400 }

/-- The settings `changes` where they are set, the old ones elsewhere. -/
def TableOptions.updated (old changes : TableOptions) : TableOptions where
  timeToLive := changes.timeToLive <|> old.timeToLive
  maxVersions := changes.maxVersions <|> old.maxVersions
  deviation := changes.deviation <|> old.deviation
  allowUpdate := changes.allowUpdate <|> old.allowUpdate

/-- The change stream of a table. -/
structure StreamSpec where
  /-- Whether changes are recorded. -/
  isEnabled : Bool := false
  /-- Hours that a record is kept. -/
  expirationTime : Option Int64 := none
deriving DecidableEq, Inhabited

/-- The versions that a read considers. -/
structure TimeRange where
  /-- First version of an interval. -/
  from? : Option Int64 := none
  /-- End of an interval, not included. -/
  to? : Option Int64 := none
  /-- The one version looked at. -/
  at? : Option Int64 := none
deriving DecidableEq, Inhabited

/-- The versions from `a` to before `b`. -/
def TimeRange.between (a b : Int64) : TimeRange := { from? := some a, to? := some b }

/-- The version `t` alone. -/
def TimeRange.specific (t : Int64) : TimeRange := { at? := some t }

/-- Everything declared or set for a table. -/
structure TableMeta where
  /-- Table name. -/
  name : String := ""
  /-- Key columns. -/
  key : List KeySchema := []
  /-- Defined columns. -/
  columns : List ColumnSchema := []
  /-- Secondary indexes. -/
  indexes : List IndexMeta := []
  /-- Retention settings. -/
  options : TableOptions := {}
  /-- Reserved capacity. -/
  reserved : Capacity := {}
  /-- Change stream. -/
  stream : Option StreamSpec := none
  /-- Keys at which the table is split. -/
  splits : List Key := []
deriving DecidableEq, Inhabited

end WideColumn
