import WideColumn.Text.Quoted
import WideColumn.Decimal.Layout

/-!
# Values, keys and rows

A row is a primary key and a list of cells. A cell belongs to a column and may carry a version;
a column may have several cells, and reading it finds the latest.
-/

namespace WideColumn

/-- The value of a cell. -/
inductive Value where
  /-- Text. -/
  | string (s : String)
  /-- A signed 64-bit integer. -/
  | integer (n : Int64)
  /-- A double. -/
  | double (x : Float)
  /-- A truth value. -/
  | boolean (b : Bool)
  /-- Bytes without further meaning. -/
  | binary (bs : Bytes)
deriving BEq, Inhabited

/-- The value of one column of a primary key. -/
inductive KeyValue where
  /-- Text. -/
  | string (s : String)
  /-- A signed 64-bit integer. -/
  | integer (n : Int64)
  /-- Bytes. -/
  | binary (bs : Bytes)
  /-- Below every other key value; bounds a range. -/
  | infMin
  /-- Above every other key value; bounds a range. -/
  | infMax
  /-- Stands for a number that the store allocates when the row is put. -/
  | autoIncrement
deriving DecidableEq, Inhabited

/-- A named column of a primary key. -/
structure KeyColumn where
  /-- Column name. -/
  name : String
  /-- Column value. -/
  value : KeyValue
deriving DecidableEq, Inhabited

/-- A primary key: its columns in the order of the table's key schema. -/
abbrev Key := List KeyColumn

/-- A cell of an attribute column. -/
structure Cell where
  /-- Column name. -/
  column : String
  /-- What the cell holds. -/
  value : Value
  /-- Version in milliseconds since the epoch, if the cell has one. -/
  version : Option Int64 := none
deriving BEq, Inhabited

/-- A row. -/
structure Row where
  /-- Primary key. -/
  key : Key := []
  /-- Cells, possibly several of one column. -/
  cells : List Cell := []
deriving BEq, Inhabited

namespace Value

/-- The name of the value's type. -/
def typeName : Value → String
  | string _ => "STRING"
  | integer _ => "INTEGER"
  | double _ => "DOUBLE"
  | boolean _ => "BOOLEAN"
  | binary _ => "BINARY"

/-- The text of a string value. -/
def string? : Value → Option String
  | string s => some s
  | _ => none

/-- The number of an integer value. -/
def integer? : Value → Option Int64
  | integer n => some n
  | _ => none

/-- The truth value of a boolean value. -/
def boolean? : Value → Option Bool
  | boolean b => some b
  | _ => none

/-- The value as shown in messages. -/
def text : Value → String
  | string s => Text.quote s
  | integer n => String.ofList (Decimal.intText n.toInt)
  | double x => Decimal.plain.text x
  | boolean b => if b then "true" else "false"
  | binary bs => s!"<{bs.length} bytes>"

end Value

namespace KeyValue

/-- Whether the value stands for something else: a bound of a range or a number to come. -/
def isSentinel : KeyValue → Bool
  | infMin | infMax | autoIncrement => true
  | _ => false

/-- The value as shown in messages. -/
def text : KeyValue → String
  | string s => Text.quote s
  | integer n => String.ofList (Decimal.intText n.toInt)
  | binary bs => s!"<{bs.length} bytes>"
  | infMin => "INF_MIN"
  | infMax => "INF_MAX"
  | autoIncrement => "AUTO_INCREMENT"

end KeyValue

namespace Cell

/-- The age of a cell: a cell without version counts as the oldest possible. -/
def age (c : Cell) : Int64 := c.version.getD Int64.minValue

/-- The later of two cells; of equally old ones the second. -/
def later (c d : Cell) : Cell := if c.age ≤ d.age then d else c

/-- The latest cell of a list; of equally old ones the last. -/
def latest? : List Cell → Option Cell
  | [] => none
  | c :: cs => some (cs.foldl later c)

end Cell

namespace Row

/-- The latest cell of a column. -/
def cell? (r : Row) (column : String) : Option Cell :=
  Cell.latest? (r.cells.filter (·.column == column))

/-- The latest value of a column. -/
def value? (r : Row) (column : String) : Option Value := (r.cell? column).map (·.value)

end Row

end WideColumn
